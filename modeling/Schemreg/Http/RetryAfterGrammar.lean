import Schemreg.Http.HttpDate

/-
  `parse_retry_after_ms` against the grammar of `Retry-After`.

  Beyond the grammar, seconds are accepted behind a `+`, and dates with any day name, any single
  characters between the fields, signs in the fields, and days that the month does not have. A
  date is not read while the clock shows a time before 1970. `retryAfter_iff` says for each text
  and each clock whether the result is the one of the grammar.
-/

namespace Schemreg.RetryAfter

open Checked Saturating Calendar Decimal Utf8

/-- Delta-seconds that fit `u64`. -/
def DeltaSeconds (s : List UInt8) (n : Nat) : Prop := decimal s = some n ∧ n < 2 ^ 64

/-- Delta-seconds behind a `+`. -/
def SignedSeconds (s : List UInt8) : Prop := ∃ ds n, s = 0x2B :: ds ∧ DeltaSeconds ds n

/-- A date with numbers in range that is not one of the grammar. -/
def LooseDate (s : List UInt8) : Prop :=
  ∃ (p : Pieces) (v : Values), p.text = s ∧ p.Reads v ∧ ¬ p.Exact v

/-- The text is read by the grammar: it has a delay exactly if it is in the grammar, the delay is
    the one that it stands for, and nothing overflows. -/
structure ReadByGrammar (now : Int64) (value : String) : Prop where
  accepted : (∃ ms, parseRetryAfterMs now value = .ok ms) ↔
    (∃ n, DeltaSeconds (toUtf8 (trim value)) n) ∨ ∃ t, ImfFixdate (toUtf8 (trim value)) t
  seconds : ∀ n, DeltaSeconds (toUtf8 (trim value)) n → ∃ ms,
    parseRetryAfterMs now value = .ok ms ∧ ms.toNat = min (n * 1000) (2 ^ 64 - 1)
  date : ∀ t, ImfFixdate (toUtf8 (trim value)) t →
    parseHttpDateUnixSecs (toUtf8 (trim value)) = .ok t ∧ ∃ ms,
      parseRetryAfterMs now value = .ok ms ∧ (ms.toNat : Int) = max (t - now.toInt) 0 * 1000
  safe : (parseRetryAfterMs now value).Safe

variable {now : Int64} {value : String} {s ds : List UInt8} {n : Nat} {t : Int} {p q : Pieces}
  {v w : Values}

/-! ## Seconds -/

theorem parseU64_of_unsigned (h : unsigned s = some n) (hn : n < 2 ^ 64) :
    parseU64 s = some (UInt64.ofNat n) := by
  unfold parseU64
  rw [h, Option.bind_some, if_pos hn]

theorem parse_seconds (h : unsigned (toUtf8 (trim value)) = some n) (hn : n < 2 ^ 64) :
    parseRetryAfterMs now value = .ok (saturatingMul (UInt64.ofNat n) 1000) := by
  unfold parseRetryAfterMs
  dsimp only
  rw [parseU64_of_unsigned h hn]

theorem toNat_seconds (hn : n < 2 ^ 64) :
    (saturatingMul (UInt64.ofNat n) 1000).toNat = min (n * 1000) (2 ^ 64 - 1) := by
  rw [toNat_saturatingMul, UInt64.toNat_ofNat', Nat.mod_eq_of_lt hn]
  rfl

/-- What `parse::<u64>` accepts: digits, or digits behind a `+`. -/
theorem seconds_of_parseU64 {secs : UInt64} (h : parseU64 s = some secs) :
    (∃ n, DeltaSeconds s n) ∨ SignedSeconds s := by
  unfold parseU64 at h
  obtain ⟨n, hn, h⟩ := Option.bind_eq_some_iff.mp h
  have hfits : n < 2 ^ 64 := by
    by_contra hbig
    rw [if_neg hbig] at h
    cases h
  unfold unsigned at hn
  split at hn
  · exact .inr ⟨_, n, rfl, hn, hfits⟩
  · exact .inl ⟨n, hn, hfits⟩

/-- Only digits follow the first byte of seconds. -/
theorem digit_of_unsigned (h : unsigned s = some n) {b : UInt8} (hb : b ∈ s.tail) :
    isDigit b = true := by
  unfold unsigned at h
  split at h
  · exact digit_of_mem h hb
  · exact digit_of_mem h (List.mem_of_mem_tail hb)

theorem comma_mem (p : Pieces) : 0x2C ∈ p.text.tail := by
  obtain ⟨a, b, c, habc⟩ := List.length_eq_three.mp p.dayName_length
  unfold Pieces.text
  rw [habc]
  simp

/-- A date is not a number of seconds. -/
theorem unsigned_text (p : Pieces) : unsigned p.text = none := by
  cases h : unsigned p.text with
  | none => rfl
  | some n =>
    have hdigit := digit_of_unsigned h (comma_mem p)
    exact absurd hdigit (by decide)

theorem parseU64_text (p : Pieces) : parseU64 p.text = none := by
  unfold parseU64
  rw [unsigned_text]
  rfl

/-! ## Dates -/

/-- Pieces are read in one way. -/
theorem reads_unique (h : p.Reads v) (h' : p.Reads w) : v = w := by
  obtain ⟨day, position, year, hour, minute, second⟩ := v
  obtain ⟨day', position', year', hour', minute', second'⟩ := w
  obtain rfl : day = day' := Option.some.inj (h.day.symm.trans h'.day)
  obtain rfl : position = position' :=
    Option.some.inj ((position_iff.mpr h.month).symm.trans (position_iff.mpr h'.month))
  obtain rfl : year = year' := Option.some.inj (h.year.symm.trans h'.year)
  obtain rfl : hour = hour' := Option.some.inj (h.hour.symm.trans h'.hour)
  obtain rfl : minute = minute' := Option.some.inj (h.minute.symm.trans h'.minute)
  obtain rfl : second = second' := Option.some.inj (h.second.symm.trans h'.second)
  rfl

/-- A loose date is no date of the grammar. -/
theorem not_imfFixdate (h : LooseDate s) : ¬ ImfFixdate s t := by
  intro himf
  obtain ⟨p, v, hp, hreads, hexact⟩ := h
  obtain ⟨q, w, hq, hreads', hexact', -⟩ := exact_of_imfFixdate himf
  obtain rfl := Pieces.text_injective (hp.trans hq.symm)
  obtain rfl := reads_unique hreads hreads'
  exact hexact hexact'

theorem not_delta_of_text : ¬ DeltaSeconds p.text n := by
  rintro ⟨h, -⟩
  have hunsigned := unsigned_of_decimal h
  rw [unsigned_text] at hunsigned
  cases hunsigned

/-- An accepted date is within a trillion seconds of 1970. -/
theorem instant_bound (h : p.Reads v) : v.instant.natAbs ≤ 1000000000000 := by
  obtain ⟨hday, hhour, hminute, hsecond⟩ := h.inRange
  have hyear := signed_bound h.year
  rw [p.year_length] at hyear
  have hposition : v.position < 12 := (List.getElem?_eq_some_iff.mp h.month).1
  have hdays : (yearStart v.year + daysOfMonths v.year v.position + (v.day - 1)).natAbs ≤
      1000 * v.year.natAbs + 1000000 :=
    days_bound (show 1 ≤ v.position + 1 ∧ v.position + 1 ≤ 12 by omega) hday
  unfold Values.instant
  omega

/-- The three ends of an accepted date: it is not read before 1970, and there is one overflow at
    the end of the clock. -/
theorem parse_date (now : Int64) (htext : p.text = toUtf8 (trim value)) (h : p.Reads v) :
    (now.toInt < 0 ∧ parseRetryAfterMs now value = .err ()) ∨
      (0 ≤ now.toInt ∧ now.toInt - v.instant ≤ 2 ^ 63 ∧ ∃ ms,
        parseRetryAfterMs now value = .ok ms ∧
          (ms.toNat : Int) = max (v.instant - now.toInt) 0 * 1000) ∨
      (0 ≤ now.toInt ∧ 2 ^ 63 < now.toInt - v.instant ∧
        parseRetryAfterMs now value = .panic .overflow) := by
  have hbound := instant_bound h
  have hclock := now.toInt_lt
  have hparse : parseHttpDateUnixSecs p.text = .ok v.instant := parse_iff.mpr ⟨p, v, rfl, h, rfl⟩
  unfold parseRetryAfterMs
  dsimp only
  rw [← htext, parseU64_text, hparse]
  dsimp only
  rw [Outcome.bind_ok]
  obtain hnow | hnow := Int.lt_or_le now.toInt 0
  · refine .inl ⟨hnow, ?_⟩
    rw [require, if_neg (by omega)]
    rfl
  rw [require, if_pos hnow, Outcome.bind_ok]
  obtain hlate | hlate := Int.lt_or_le (2 ^ 63) (now.toInt - v.instant)
  · refine .inr (.inr ⟨hnow, hlate, ?_⟩)
    rw [i64, if_neg (by omega)]
    rfl
  · refine .inr (.inl ⟨hnow, hlate, ?_⟩)
    rw [i64_of_bounds (by omega) (by omega), Outcome.bind_ok]
    have hsmall : (max (v.instant - now.toInt) 0).toNat ≤ 1000000000000 := by omega
    have htoNat : (UInt64.ofNat (max (v.instant - now.toInt) 0).toNat).toNat =
        (max (v.instant - now.toInt) 0).toNat := by
      rw [UInt64.toNat_ofNat', Nat.mod_eq_of_lt (by omega)]
    have hthousand : (1000 : UInt64).toNat = 1000 := rfl
    unfold mulU64
    rw [htoNat, hthousand, if_pos (by omega)]
    refine ⟨_, rfl, ?_⟩
    rw [UInt64.toNat_mul, htoNat, hthousand, Nat.mod_eq_of_lt (by omega)]
    omega

/-- Every text is seconds, seconds behind a `+`, an accepted date, or nothing. -/
theorem parse_cases (now : Int64) (value : String) :
    (∃ n, DeltaSeconds (toUtf8 (trim value)) n) ∨ SignedSeconds (toUtf8 (trim value)) ∨
      (∃ (p : Pieces) (v : Values), p.text = toUtf8 (trim value) ∧ p.Reads v) ∨
      parseRetryAfterMs now value = .err () := by
  cases hsecs : parseU64 (toUtf8 (trim value)) with
  | some secs => exact (seconds_of_parseU64 hsecs).imp_right .inl
  | none =>
    refine .inr (.inr ?_)
    cases hdate : parseHttpDateUnixSecs (toUtf8 (trim value)) with
    | ok t =>
      obtain ⟨p, v, htext, hreads, -⟩ := parse_iff.mp hdate
      exact .inl ⟨p, v, htext, hreads⟩
    | err e =>
      right
      unfold parseRetryAfterMs
      dsimp only
      rw [hsecs, hdate]
      rfl
    | panic reason => exact absurd hdate (parse_safe _ reason)

/-! ## The grammar -/

theorem ReadByGrammar.not_signed (h : ReadByGrammar now value) :
    ¬ SignedSeconds (toUtf8 (trim value)) := by
  rintro ⟨ds, n, htext, hdigits, hn⟩
  have hunsigned : unsigned (toUtf8 (trim value)) = some n := by
    rw [htext]
    exact hdigits
  obtain ⟨n', hdelta, -⟩ | ⟨t, himf⟩ := h.accepted.mp ⟨_, parse_seconds hunsigned hn⟩
  · rw [htext] at hdelta
    exact not_hasSign hdelta (.inl rfl)
  · obtain ⟨p, v, hp, -⟩ := exact_of_imfFixdate himf
    rw [← hp, unsigned_text] at hunsigned
    cases hunsigned

/-- A loose date is refused only by a clock before 1970. -/
theorem ReadByGrammar.clock_of_loose (h : ReadByGrammar now value)
    (hloose : LooseDate (toUtf8 (trim value))) : now.toInt < 0 := by
  obtain ⟨p, v, htext, hreads, -⟩ := id hloose
  obtain ⟨hnow, -⟩ | ⟨-, -, ms, hms, -⟩ | ⟨-, -, hpanic⟩ := parse_date now htext hreads
  · exact hnow
  · obtain ⟨n, hdelta⟩ | ⟨t, himf⟩ := h.accepted.mp ⟨ms, hms⟩
    · rw [← htext] at hdelta
      exact absurd hdelta not_delta_of_text
    · exact absurd himf (not_imfFixdate hloose)
  · exact absurd hpanic (h.safe _)

theorem ReadByGrammar.clock_of_imfFixdate (h : ReadByGrammar now value)
    (himf : ImfFixdate (toUtf8 (trim value)) t) : 0 ≤ now.toInt ∧ now.toInt - t ≤ 2 ^ 63 := by
  obtain ⟨ms, hms⟩ := h.accepted.mpr (.inr ⟨t, himf⟩)
  obtain ⟨p, v, htext, hreads, -, rfl⟩ := exact_of_imfFixdate himf
  obtain ⟨-, hnone⟩ | ⟨hnow, hlate, -⟩ | ⟨-, -, hpanic⟩ := parse_date now htext hreads
  · rw [hnone] at hms
    cases hms
  · exact ⟨hnow, hlate⟩
  · rw [hpanic] at hms
    cases hms

theorem parse_delta (h : DeltaSeconds (toUtf8 (trim value)) n) :
    parseRetryAfterMs now value = .ok (saturatingMul (UInt64.ofNat n) 1000) :=
  parse_seconds (unsigned_of_decimal h.1) h.2

theorem delay_of_imfFixdate (himf : ImfFixdate (toUtf8 (trim value)) t)
    (hclock : 0 ≤ now.toInt ∧ now.toInt - t ≤ 2 ^ 63) : ∃ ms,
    parseRetryAfterMs now value = .ok ms ∧ (ms.toNat : Int) = max (t - now.toInt) 0 * 1000 := by
  obtain ⟨hnow, hlate⟩ := hclock
  obtain ⟨p, v, htext, hreads, -, rfl⟩ := exact_of_imfFixdate himf
  obtain ⟨hneg, -⟩ | ⟨-, -, h⟩ | ⟨-, hover, -⟩ := parse_date now htext hreads
  · omega
  · exact h
  · omega

/-- What is read is seconds or a date of the grammar, or else there is nothing. -/
theorem parse_ends (hsigned : ¬ SignedSeconds (toUtf8 (trim value)))
    (hloose : LooseDate (toUtf8 (trim value)) → now.toInt < 0) :
    (∃ n, DeltaSeconds (toUtf8 (trim value)) n) ∨
      (∃ t, ImfFixdate (toUtf8 (trim value)) t) ∨ parseRetryAfterMs now value = .err () := by
  obtain hdelta | hplus | ⟨p, v, htext, hreads⟩ | hnone := parse_cases now value
  · exact .inl hdelta
  · exact absurd hplus hsigned
  · by_cases hexact : p.Exact v
    · exact .inr (.inl ⟨v.instant, htext ▸ imfFixdate_of_exact hreads hexact⟩)
    · have hnow := hloose ⟨p, v, htext, hreads, hexact⟩
      obtain ⟨-, h⟩ | ⟨h, -⟩ | ⟨h, -⟩ := parse_date now htext hreads
      · exact .inr (.inr h)
      · omega
      · omega
  · exact .inr (.inr hnone)

/-- The text is read by the grammar exactly if it is not seconds behind a `+`, if no loose date is
    read, and if the clock allows for the date that it may be. -/
theorem retryAfter_iff (now : Int64) (value : String) :
    ReadByGrammar now value ↔
      ¬ SignedSeconds (toUtf8 (trim value)) ∧
      (LooseDate (toUtf8 (trim value)) → now.toInt < 0) ∧
      ∀ t, ImfFixdate (toUtf8 (trim value)) t → 0 ≤ now.toInt ∧ now.toInt - t ≤ 2 ^ 63 := by
  constructor
  · intro h
    exact ⟨h.not_signed, h.clock_of_loose, fun t himf => h.clock_of_imfFixdate himf⟩
  · rintro ⟨hsigned, hloose, hclock⟩
    have hends := parse_ends hsigned hloose
    have hdate : ∀ t, ImfFixdate (toUtf8 (trim value)) t → ∃ ms,
        parseRetryAfterMs now value = .ok ms ∧ (ms.toNat : Int) = max (t - now.toInt) 0 * 1000 :=
      fun t himf => delay_of_imfFixdate himf (hclock t himf)
    refine ⟨⟨?_, ?_⟩, ?_, ?_, ?_⟩
    · rintro ⟨ms, hms⟩
      obtain hdelta | himf | hnone := hends
      · exact .inl hdelta
      · exact .inr himf
      · rw [hnone] at hms
        cases hms
    · rintro (⟨n, hdelta⟩ | ⟨t, himf⟩)
      · exact ⟨_, parse_delta hdelta⟩
      · obtain ⟨ms, hms, -⟩ := hdate t himf
        exact ⟨ms, hms⟩
    · intro n hdelta
      exact ⟨_, parse_delta hdelta, toNat_seconds hdelta.2⟩
    · intro t himf
      exact ⟨parse_of_imfFixdate himf, hdate t himf⟩
    · intro reason hpanic
      obtain ⟨n, hdelta⟩ | ⟨t, himf⟩ | hnone := hends
      · rw [parse_delta hdelta] at hpanic
        cases hpanic
      · obtain ⟨ms, hms, -⟩ := hdate t himf
        rw [hms] at hpanic
        cases hpanic
      · rw [hnone] at hpanic
        cases hpanic

/-- The 31st of February is read as the 3rd of March. -/
theorem february_31_is_read :
    parseRetryAfterMs 1767225600 "Thu, 31 Feb 2030 00:00:00 GMT" =
        parseRetryAfterMs 1767225600 "Sun, 03 Mar 2030 00:00:00 GMT" ∧
      parseRetryAfterMs 1767225600 "Thu, 31 Feb 2030 00:00:00 GMT" = .ok 131500800000 ∧
      ¬ ReadByGrammar 1767225600 "Thu, 31 Feb 2030 00:00:00 GMT" := by
  have hread : parseRetryAfterMs 1767225600 "Thu, 31 Feb 2030 00:00:00 GMT" =
    .ok 131500800000 := by decide +kernel
  refine ⟨by decide +kernel, hread, fun h => ?_⟩
  let p : Pieces := ⟨toUtf8 "Thu", toUtf8 "31", 0x20, toUtf8 "Feb", 0x20, toUtf8 "2030", 0x20,
    toUtf8 "00", 0x3A, toUtf8 "00", 0x3A, toUtf8 "00", by decide +kernel, by decide +kernel,
    by decide +kernel, by decide +kernel, by decide +kernel, by decide +kernel, by decide +kernel⟩
  have htext : p.text = toUtf8 (trim "Thu, 31 Feb 2030 00:00:00 GMT") := by decide +kernel
  have hrange : Values.InRange ⟨31, 1, 2030, 0, 0, 0⟩ :=
    ⟨by decide, by decide, by decide, by decide⟩
  have hreads : p.Reads ⟨31, 1, 2030, 0, 0, 0⟩ :=
    ⟨by decide +kernel, by decide +kernel, by decide +kernel, by decide +kernel,
      by decide +kernel, by decide +kernel, hrange, by decide +kernel⟩
  have hloose : LooseDate (toUtf8 (trim "Thu, 31 Feb 2030 00:00:00 GMT")) :=
    ⟨p, _, htext, hreads, fun hexact => absurd hexact.exists_day (by decide)⟩
  obtain ⟨n, hdelta⟩ | ⟨t, himf⟩ := h.accepted.mp ⟨_, hread⟩
  · rw [← htext] at hdelta
    exact not_delta_of_text hdelta
  · exact not_imfFixdate hloose himf

end Schemreg.RetryAfter
