import Mathlib.Data.Bool.AllAny
import Schemreg.Http
import Schemreg.Lib.Ascii

/-
  What a validated subject is in a path.

  The encoder leaves dots alone and turns everything that could end the segment into an escape.
  What comes of decoding the path once is the subject itself, and what comes of decoding it
  twice is what `validate_subject` has decoded and screened as text. The text is lossy, but it
  is cut at the same places as the bytes (`Utf8.Reads.split`).

  Proved:
  * `percentDecode_percentEncode`: decoding gives the subject back.
  * `validateSubject_stays`: a validated subject stays in its path segment.
-/

namespace Schemreg

open Utf8

/-! ## Dot segments -/

def isSeparator (c : Char) : Bool := c = '/' || c = '\\'

def isSeparatorByte (b : UInt8) : Bool := b = 0x2F || b = 0x5C

/-- No segment of the text is a `.` or `..`. -/
def NoDotSegments (text : String) : Prop :=
  ∀ segment ∈ text.toList.splitOnP isSeparator, segment ≠ ['.'] ∧ segment ≠ ['.', '.']

/-- No segment of the bytes is a `.` or `..`. -/
def NoDotSegmentBytes (bytes : List UInt8) : Prop :=
  ∀ segment ∈ bytes.splitOnP isSeparatorByte, segment ≠ [0x2E] ∧ segment ≠ [0x2E, 0x2E]

/-- What an encoded subject is to whoever decodes the path, once or twice, and reads what comes
    of it as bytes or as text. -/
structure StaysInSegment (subject : String) : Prop where
  plain : ∀ c ∈ (percentEncode subject).toList,
    c ∉ ['/', '\\', '?', '#'] ∧ 0x20 < c.toNat ∧ c.toNat < 0x7F
  decodes : fromUtf8 (percentDecode (toUtf8 (percentEncode subject))) = .ok subject
  once : NoDotSegmentBytes (percentDecode (toUtf8 (percentEncode subject)))
  onceText : NoDotSegments (fromUtf8Lossy (percentDecode (toUtf8 (percentEncode subject))))
  twice : NoDotSegmentBytes (percentDecode (percentDecode (toUtf8 (percentEncode subject))))
  twiceText : NoDotSegments
    (fromUtf8Lossy (percentDecode (percentDecode (toUtf8 (percentEncode subject)))))

theorem hasNoDotSegments_eq_ok {text : String} :
    hasNoDotSegments text = .ok () ↔ NoDotSegments text := by
  unfold hasNoDotSegments NoDotSegments isSeparator
  split
  · rename_i h
    simp only [reduceCtorEq, false_iff, not_forall]
    obtain ⟨segment, hmem, hdots⟩ := List.any_eq_true.mp h
    refine ⟨segment, hmem, ?_⟩
    simp at hdots
    rcases hdots with rfl | rfl <;> simp
  · rename_i h
    simp only [true_iff]
    intro segment hmem
    have hsegment := fun hdots => h (List.any_eq_true.mpr ⟨segment, hmem, hdots⟩)
    simp at hsegment
    exact ⟨hsegment.2, hsegment.1⟩

section Reading

variable {bytes : List UInt8} {text : String}

theorem segments_correspond (h : Reads bytes text.toList) :
    List.Forall₂ Reads (bytes.splitOnP isSeparatorByte) (text.toList.splitOnP isSeparator) := by
  refine h.split ?_ ?_ ?_
  · intro b hb
    have hslash : Char.ofNat b.toNat = '/' ↔ b = 0x2F := by
      rw [← Char.toNat_inj, toNat_ofNat_byte, ← UInt8.toNat_inj]
      rfl
    have hback : Char.ofNat b.toNat = '\\' ↔ b = 0x5C := by
      rw [← Char.toNat_inj, toNat_ofNat_byte, ← UInt8.toNat_inj]
      rfl
    simp only [isSeparatorByte, isSeparator, hslash, hback]
  · intro b hb
    have hslash : b ≠ 0x2F := fun heq => absurd (heq ▸ hb) (by decide)
    have hback : b ≠ 0x5C := fun heq => absurd (heq ▸ hb) (by decide)
    simp [isSeparatorByte, hslash, hback]
  · intro c hc
    have hslash : c ≠ '/' := fun heq => absurd (heq ▸ hc) (by decide)
    have hback : c ≠ '\\' := fun heq => absurd (heq ▸ hc) (by decide)
    simp [isSeparator, hslash, hback]

theorem exists_right {α β : Type} {R : α → β → Prop} {xs : List α} {ys : List β}
    (h : List.Forall₂ R xs ys) {x : α} (hx : x ∈ xs) : ∃ y ∈ ys, R x y := by
  induction h with
  | nil => cases hx
  | cons hfirst _ ih =>
    rcases List.mem_cons.mp hx with rfl | hrest
    · exact ⟨_, List.mem_cons_self, hfirst⟩
    · obtain ⟨y, hy, hxy⟩ := ih hrest
      exact ⟨y, List.mem_cons_of_mem _ hy, hxy⟩

/-- The text has a dot segment where the bytes have one. -/
theorem noDotSegmentBytes (h : Reads bytes text.toList) (hdots : NoDotSegments text) :
    NoDotSegmentBytes bytes := by
  intro segment hmem
  obtain ⟨chars, hchars, hreads⟩ := exists_right (segments_correspond h) hmem
  obtain ⟨hone, htwo⟩ := hdots chars hchars
  constructor
  · rintro rfl
    exact hone (hreads.chars_of_ascii (List.all_iff_forall_prop.mp (by decide)))
  · rintro rfl
    exact htwo (hreads.chars_of_ascii (List.all_iff_forall_prop.mp (by decide)))

/-- The bytes have a dot segment where the text has one. -/
theorem noDotSegments (h : Reads bytes text.toList) (hdots : NoDotSegmentBytes bytes) :
    NoDotSegments text := by
  intro segment hmem
  obtain ⟨seen, hseen, hreads⟩ := exists_right (segments_correspond h).flip hmem
  obtain ⟨hone, htwo⟩ := hdots seen hseen
  constructor
  · rintro rfl
    exact hone (hreads.bytes_of_ascii (List.all_iff_forall_prop.mp (by decide)))
  · rintro rfl
    exact htwo (hreads.bytes_of_ascii (List.all_iff_forall_prop.mp (by decide)))

end Reading

/-! ## Percent encoding -/

theorem upperHexDigit_plain : ∀ n < 16, upperHexDigit n ∉ ['/', '\\', '?', '#'] ∧
    0x20 < (upperHexDigit n).toNat ∧ (upperHexDigit n).toNat < 0x7F := by decide

theorem hexDigit_upperHexDigit : ∀ n < 16,
    hexDigit (UInt8.ofNat (upperHexDigit n).toNat) = some (UInt8.ofNat n) := by decide

theorem nibbles_lt (b : UInt8) : b.toNat / 16 < 16 ∧ b.toNat % 16 < 16 := by
  have hlt := b.toNat_lt
  omega

/-- A byte that the encoder leaves as it is. -/
theorem unencoded {b : UInt8} (h : ¬ (0x80 ≤ b || pathSegmentEncodeSet b) = true) :
    0x20 < b.toNat ∧ b.toNat < 0x7F ∧ b ≠ 0x2F ∧ b ≠ 0x5C ∧ b ≠ 0x3F ∧ b ≠ 0x23 ∧ b ≠ 0x25 := by
  simp [pathSegmentEncodeSet, ← UInt8.toNat_inj, UInt8.lt_iff_toNat_lt,
    UInt8.le_iff_toNat_le] at h ⊢
  omega

theorem percentEncodeByte_plain (b : UInt8) : ∀ c ∈ percentEncodeByte b,
    c ∉ ['/', '\\', '?', '#'] ∧ 0x20 < c.toNat ∧ c.toNat < 0x7F := by
  intro c hc
  unfold percentEncodeByte at hc
  split at hc
  · simp only [List.mem_cons, List.not_mem_nil, or_false] at hc
    rcases hc with rfl | rfl | rfl
    · decide
    · exact upperHexDigit_plain _ (nibbles_lt b).1
    · exact upperHexDigit_plain _ (nibbles_lt b).2
  · rename_i h
    obtain ⟨hlow, hhigh, hslash, hback, hquery, hfragment, -⟩ := unencoded h
    obtain rfl := List.mem_singleton.mp hc
    rw [toNat_ofNat_byte]
    refine ⟨?_, hlow, hhigh⟩
    simp only [List.mem_cons, List.not_mem_nil, or_false, ← Char.toNat_inj, toNat_ofNat_byte]
    simp only [ne_eq, ← UInt8.toNat_inj] at hslash hback hquery hfragment
    rintro (h | h | h | h)
    · exact hslash h
    · exact hback h
    · exact hquery h
    · exact hfragment h

/-- A byte other than `%` stands for itself. -/
theorem percentDecode_cons_ne {b : UInt8} (h : b ≠ 0x25) (rest : List UInt8) :
    percentDecode (b :: rest) = b :: percentDecode rest := by
  rw [percentDecode]
  intro _ _ _ heq
  exact absurd heq h

theorem percentDecode_of_plain : ∀ {bytes : List UInt8}, 0x25 ∉ bytes →
    percentDecode bytes = bytes
  | [], _ => by rw [percentDecode]
  | b :: bytes, h => by
      have hb : b ≠ 0x25 := fun heq => h (heq ▸ List.mem_cons_self)
      rw [percentDecode_cons_ne hb,
        percentDecode_of_plain fun hmem => h (List.mem_cons_of_mem _ hmem)]

/-- An encoded byte is ASCII. -/
theorem utf8_percentEncodeByte (b : UInt8) :
    ∀ c ∈ percentEncodeByte b, String.utf8EncodeChar c = [UInt8.ofNat c.toNat] :=
  fun c hc => utf8EncodeChar_ascii (Nat.lt_trans (percentEncodeByte_plain b c hc).2.2 (by decide))

theorem percentDecode_percentEncodeByte (b : UInt8) (rest : List UInt8) :
    percentDecode ((percentEncodeByte b).flatMap String.utf8EncodeChar ++ rest) =
      b :: percentDecode rest := by
  have hascii := utf8_percentEncodeByte b
  unfold percentEncodeByte at hascii ⊢
  split
  · rename_i h
    rw [if_pos h] at hascii
    obtain ⟨hhigh, hlow⟩ := nibbles_lt b
    have hvalue : UInt8.ofNat (b.toNat / 16) * 16 + UInt8.ofNat (b.toNat % 16) = b := by
      rw [← UInt8.toNat_inj]
      simp
      omega
    rw [List.flatMap_cons, List.flatMap_cons, List.flatMap_cons, hascii _ (by simp),
      hascii _ (by simp), hascii _ (by simp)]
    show percentDecode (0x25 :: _ :: _ :: rest) = _
    rw [percentDecode, hexDigit_upperHexDigit _ hhigh, hexDigit_upperHexDigit _ hlow]
    dsimp only
    rw [hvalue]
  · rename_i h
    rw [if_neg h] at hascii
    have hne := (unencoded h).2.2.2.2.2.2
    rw [List.flatMap_cons, hascii _ (by simp), toNat_ofNat_byte, UInt8.ofNat_toNat]
    exact percentDecode_cons_ne hne rest

theorem percentDecode_flatMap : ∀ bytes : List UInt8,
    percentDecode ((bytes.flatMap percentEncodeByte).flatMap String.utf8EncodeChar) = bytes
  | [] => by simp [percentDecode]
  | b :: bytes => by
      rw [List.flatMap_cons, List.flatMap_append, percentDecode_percentEncodeByte,
        percentDecode_flatMap bytes]

/-- Decoding gives the subject back. -/
theorem percentDecode_percentEncode (s : String) :
    percentDecode (toUtf8 (percentEncode s)) = toUtf8 s := by
  show percentDecode ((percentEncode s).toList.flatMap String.utf8EncodeChar) = _
  unfold percentEncode
  rw [String.toList_ofList, percentDecode_flatMap]

theorem percent_not_mem {s : String} (h : '%' ∉ s.toList) : 0x25 ∉ toUtf8 s :=
  fun hmem => h ((reads_toUtf8 s).mem_char (by decide) hmem)

/-! ## What is validated -/

/-- What `validate_subject` has seen of a subject that it accepts. -/
theorem validateSubject_screens {s : String} (h : validateSubject s = .ok ()) :
    s ≠ "" ∧ NoDotSegments s ∧
      ('%' ∈ s.toList → NoDotSegments (fromUtf8Lossy (percentDecode (toUtf8 s)))) := by
  unfold validateSubject at h
  simp only [bind, Except.bind, pure, Except.pure] at h
  split at h
  · cases h
  · rename_i hempty
    split at h
    · cases h
    · split at h
      · cases h
      · rename_i hplain
        have hdots : NoDotSegments s := hasNoDotSegments_eq_ok.mp hplain
        refine ⟨by simpa using hempty, hdots, ?_⟩
        intro hpercent
        rw [if_pos (by simpa using hpercent)] at h
        split at h
        · exact hasNoDotSegments_eq_ok.mp h
        · rename_i hsame
          rw [not_not.mp hsame]
          exact hdots

/-- A validated subject stays in its path segment. -/
theorem validateSubject_stays {s : String} (h : validateSubject s = .ok ()) :
    StaysInSegment s := by
  obtain ⟨-, hdots, hdecoded⟩ := validateSubject_screens h
  have honce : NoDotSegmentBytes (toUtf8 s) := noDotSegmentBytes (reads_toUtf8 s) hdots
  have htwice : NoDotSegmentBytes (percentDecode (toUtf8 s)) := by
    by_cases hpercent : '%' ∈ s.toList
    · exact noDotSegmentBytes (reads_fromUtf8Lossy _) (hdecoded hpercent)
    · rw [percentDecode_of_plain (percent_not_mem hpercent)]
      exact honce
  constructor
  · intro c hc
    unfold percentEncode at hc
    rw [String.toList_ofList] at hc
    obtain ⟨b, -, hcb⟩ := List.mem_flatMap.mp hc
    exact percentEncodeByte_plain b c hcb
  all_goals rw [percentDecode_percentEncode]
  · exact fromUtf8_toUtf8 s
  · exact honce
  · exact noDotSegments (reads_fromUtf8Lossy _) honce
  · exact htwice
  · exact noDotSegments (reads_fromUtf8Lossy _) htwice

end Schemreg
