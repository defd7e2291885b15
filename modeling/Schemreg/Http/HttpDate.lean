import Schemreg.Http.CivilDays
import Schemreg.Lib.Ascii

/-
  `parse_http_date_unix_secs`: what it accepts, and what it makes of it.

  A text that is accepted is made of `Pieces` at fixed places. `parse_iff` says which pieces are
  accepted (`Pieces.Reads`), and `imfFixdate_iff` that the dates of the grammar are those of them
  that are also `Pieces.Exact`. By `parse_safe` nothing overflows. Its days are those of the
  calendar (`daysFromCivil_exact`).
-/

namespace Schemreg.RetryAfter

open Checked Calendar Decimal Utf8

/-! ## The grammar -/

def dayNames : List (List UInt8) := ["Mon", "Tue", "Wed", "Thu", "Fri", "Sat", "Sun"].map toUtf8

/-- A field of so many digits, and its value. -/
def Field (width : Nat) (ds : List UInt8) (n : Nat) : Prop :=
  ds.length = width ∧ decimal ds = some n

/-- The fields of a date, with what is between them. -/
def dateText (dayName dd monthName yyyy hh mm ss : List UInt8) : List UInt8 :=
  dayName ++ toUtf8 ", " ++ dd ++ toUtf8 " " ++ monthName ++ toUtf8 " " ++ yyyy ++ toUtf8 " " ++
    hh ++ toUtf8 ":" ++ mm ++ toUtf8 ":" ++ ss ++ toUtf8 " GMT"

/-- An IMF-fixdate, and its instant in Unix seconds. -/
inductive ImfFixdate : List UInt8 → Int → Prop where
  | mk {dayName dd monthName yyyy hh mm ss : List UInt8} {date : Date}
      {year hour minute second : Nat} (dayName_mem : dayName ∈ dayNames)
      (day_field : Field 2 dd date.day) (month_name : months[date.month - 1]? = some monthName)
      (year_field : Field 4 yyyy year) (year_eq : date.year = year)
      (hour_field : Field 2 hh hour) (hour_le : hour ≤ 23)
      (minute_field : Field 2 mm minute) (minute_le : minute ≤ 59)
      (second_field : Field 2 ss second) (second_le : second ≤ 60) :
      ImfFixdate (dateText dayName dd monthName yyyy hh mm ss)
        (date.number * 86400 + hour * 3600 + minute * 60 + second)

/-! ## Pieces -/

/-- The pieces of a text of 29 bytes: its fields, and the bytes after them. -/
structure Pieces where
  dayName : List UInt8
  day : List UInt8
  afterDay : UInt8
  month : List UInt8
  afterMonth : UInt8
  year : List UInt8
  afterYear : UInt8
  hour : List UInt8
  afterHour : UInt8
  minute : List UInt8
  afterMinute : UInt8
  second : List UInt8
  dayName_length : dayName.length = 3
  day_length : day.length = 2
  month_length : month.length = 3
  year_length : year.length = 4
  hour_length : hour.length = 2
  minute_length : minute.length = 2
  second_length : second.length = 2

/-- The numbers that are read, with the position of the month. -/
structure Values where
  day : Int
  position : Nat
  year : Int
  hour : Int
  minute : Int
  second : Int

/-- The instant, in Unix seconds. -/
def Values.instant (v : Values) : Int :=
  (yearStart v.year + daysOfMonths v.year v.position + (v.day - 1)) * 86400 + v.hour * 3600 +
    v.minute * 60 + v.second

/-- The bounds that are checked. -/
structure Values.InRange (v : Values) : Prop where
  day : 1 ≤ v.day ∧ v.day ≤ 31
  hour : 0 ≤ v.hour ∧ v.hour ≤ 23
  minute : 0 ≤ v.minute ∧ v.minute ≤ 59
  second : 0 ≤ v.second ∧ v.second ≤ 60

namespace Pieces

def text (p : Pieces) : List UInt8 :=
  p.dayName ++ 0x2C :: 0x20 :: (p.day ++ p.afterDay :: (p.month ++ p.afterMonth :: (p.year ++
    p.afterYear :: (p.hour ++ p.afterHour :: (p.minute ++ p.afterMinute ::
      (p.second ++ toUtf8 " GMT"))))))

/-- The pieces are accepted: the fields may have a sign, and the bytes after them are any that
    begin a character. -/
structure Reads (p : Pieces) (v : Values) : Prop where
  day : signed p.day = some v.day
  month : months[v.position]? = some p.month
  year : signed p.year = some v.year
  hour : signed p.hour = some v.hour
  minute : signed p.minute = some v.minute
  second : signed p.second = some v.second
  inRange : v.InRange
  between : ∀ b ∈ [p.afterDay, p.afterMonth, p.afterYear, p.afterHour, p.afterMinute],
    isContinuation b = false

/-- The pieces are those of the grammar: with the name of a day, single blanks and colons, no
    signs, and a day that the month has. -/
structure Exact (p : Pieces) (v : Values) : Prop where
  dayName : p.dayName ∈ dayNames
  blanks : p.afterDay = 0x20 ∧ p.afterMonth = 0x20 ∧ p.afterYear = 0x20
  colons : p.afterHour = 0x3A ∧ p.afterMinute = 0x3A
  digits : ∀ ds ∈ [p.day, p.year, p.hour, p.minute, p.second], ¬ HasSign ds
  exists_day : v.day ≤ monthLength v.year (v.position + 1)

end Pieces

variable {text s pre piece rest : List UInt8} {t n : Int} {v : Values} {p q : Pieces} {lo hi : Nat}

/-! ## Slices -/

/-- A text begins with a character, if with anything. -/
def Starts (s : List UInt8) : Prop := ∀ b, s.head? = some b → isContinuation b = false

theorem starts_cons {b : UInt8} : Starts (b :: s) ↔ isContinuation b = false :=
  ⟨fun h => h b rfl, fun h _ hb => Option.some.inj hb ▸ h⟩

theorem starts_append (hne : s ≠ []) (h : ∀ b ∈ s, b.toNat < 0x80) : Starts (s ++ rest) := by
  intro b hb
  rw [List.head?_append_of_ne_nil _ hne] at hb
  have hascii := h b (List.mem_of_head? hb)
  rw [Bool.eq_false_iff]
  intro hcont
  have hge := (isContinuation_iff.mp hcont).1
  omega

theorem isCharBoundary_append (hpos : 0 < pre.length) :
    isCharBoundary (pre ++ s) pre.length = true ↔ Starts s := by
  have hne : pre.length ≠ 0 := by omega
  cases s with
  | nil => simp [isCharBoundary, hne, Starts]
  | cons b s => simp [isCharBoundary, hne, starts_cons]

/-- A slice is a piece of its own, if it and what follows begin with a character. -/
theorem get_eq_some {x : List UInt8} (pre piece : List UInt8) (hs : s = pre ++ (piece ++ rest))
    (hpos : 0 < lo) (hlo : pre.length = lo) (hhi : lo + piece.length = hi) :
    get s lo hi = some x ↔ x = piece ∧ Starts (piece ++ rest) ∧ Starts rest := by
  have hfirst : isCharBoundary s lo = true ↔ Starts (piece ++ rest) := by
    rw [hs, ← hlo]
    exact isCharBoundary_append (by omega)
  have hlast : isCharBoundary s hi = true ↔ Starts rest := by
    have happend : s = (pre ++ piece) ++ rest := by rw [hs, List.append_assoc]
    have hlength : (pre ++ piece).length = hi := by rw [List.length_append, hlo, hhi]
    rw [happend, ← hlength]
    exact isCharBoundary_append (by omega)
  have hslice : (s.drop lo).take (hi - lo) = piece := by
    rw [hs, List.drop_left' hlo, List.take_left' (by omega)]
  unfold get
  rw [hslice]
  split
  · rename_i h
    rw [Option.some.injEq]
    exact ⟨fun hx => ⟨hx.symm, hfirst.mp h.2.1, hlast.mp h.2.2⟩, fun hx => hx.1.symm⟩
  · rename_i h
    exact ⟨nofun, fun hx => absurd ⟨by omega, hfirst.mpr hx.2.1, hlast.mpr hx.2.2⟩ h⟩

theorem parseI64_eq (h : s.length ≤ 18) : parseI64 s = signed s := by
  unfold parseI64
  cases hs : signed s with
  | none => rfl
  | some n =>
    have hbound := signed_bound hs
    have hpow : 10 ^ s.length ≤ 10 ^ 18 := Nat.pow_le_pow_right (by decide) h
    exact if_pos (by omega)

/-- A field is a signed numeral. -/
theorem num_eq_some {b : UInt8} (pre piece : List UInt8) (hs : s = pre ++ (piece ++ b :: rest))
    (hpos : 0 < lo) (hlo : pre.length = lo) (hhi : lo + piece.length = hi)
    (hshort : piece.length ≤ 18) : (get s lo hi).bind parseI64 = some n ↔
      isContinuation b = false ∧ signed piece = some n := by
  rw [Option.bind_eq_some_iff]
  constructor
  · rintro ⟨x, hx, hn⟩
    obtain ⟨rfl, -, hrest⟩ := (get_eq_some pre piece hs hpos hlo hhi).mp hx
    exact ⟨starts_cons.mp hrest, (parseI64_eq hshort).symm.trans hn⟩
  · rintro ⟨hrest, hn⟩
    have hstarts : Starts (piece ++ b :: rest) :=
      starts_append (signed_ne_nil hn) fun c hc => ascii_of_signed hn hc
    exact ⟨piece, (get_eq_some pre piece hs hpos hlo hhi).mpr
      ⟨rfl, hstarts, starts_cons.mpr hrest⟩, (parseI64_eq hshort).trans hn⟩

/-! ## What the parser does -/

/-- What the parser finds in a text that it accepts. -/
structure Sliced (s : List UInt8) (v : Values) : Prop where
  length : s.length = 29
  gmt : toUtf8 " GMT" <:+ s
  comma : s[3]? = some 0x2C
  blank : s[4]? = some 0x20
  day : (get s 5 7).bind parseI64 = some v.day
  year : (get s 12 16).bind parseI64 = some v.year
  hour : (get s 17 19).bind parseI64 = some v.hour
  minute : (get s 20 22).bind parseI64 = some v.minute
  second : (get s 23 25).bind parseI64 = some v.second
  month : ∃ name, get s 8 11 = some name ∧
    months.findIdx? (fun m => m = name) = some v.position
  inRange : v.InRange

/-- A slice is no longer than its range. -/
theorem get_length {x : List UInt8} (h : get s lo hi = some x) : x.length ≤ hi - lo := by
  unfold get at h
  split at h
  · rw [← Option.some.inj h]
    exact List.length_take_le ..
  · cases h

theorem num_bound (h : (get s lo hi).bind parseI64 = some n) (hshort : hi - lo ≤ 18) :
    n.natAbs < 10 ^ (hi - lo) := by
  obtain ⟨x, hx, hn⟩ := Option.bind_eq_some_iff.mp h
  have hlength := get_length hx
  rw [parseI64_eq (by omega)] at hn
  exact Nat.lt_of_lt_of_le (signed_bound hn) (Nat.pow_le_pow_right (by decide) hlength)

theorem position_lt {name : List UInt8} {i : Nat}
    (h : months.findIdx? (fun m => m = name) = some i) : i < 12 :=
  (List.findIdx?_eq_some_iff_findIdx_eq.mp h).1

/-- The day of a date is within a million of a few hundred days for each year. -/
theorem days_bound {year day : Int} {month : Nat} (hmonth : 1 ≤ month ∧ month ≤ 12)
    (hday : 1 ≤ day ∧ day ≤ 31) :
    (yearStart year + daysOfMonths year (month - 1) + (day - 1)).natAbs ≤
      1000 * year.natAbs + 1000000 := by
  have hmonths : 0 ≤ daysOfMonths year (month - 1) ∧ daysOfMonths year (month - 1) ≤ 400 := by
    rw [daysOfMonths_eq hmonth]
    split
    · omega
    · split <;> omega
  rw [yearStart_eq, elapsed_epoch]
  unfold elapsed
  omega

theorem daysFromCivil_i64 {year day : Int} {month : Nat} (hyear : year.natAbs < 10000)
    (hmonth : 1 ≤ month ∧ month ≤ 12) (hday : 1 ≤ day ∧ day ≤ 31) :
    daysFromCivil i64 year month day =
      .ok (yearStart year + daysOfMonths year (month - 1) + (day - 1)) :=
  daysFromCivil_eq (fun _ _ => i64_of_bounds (by omega) (by omega)) hmonth hday

/-- `days_from_civil` is the day count of the calendar: the first of January 1970 is 0, the day
    after a date is one more, and the number of a date is its distance from 1970. For a year field
    of the parser the words do not overflow. -/
theorem daysFromCivil_exact :
    daysFromCivil .ok 1970 1 1 = .ok 0 ∧
      (∀ d : Date, daysFromCivil .ok d.year d.month d.day = .ok d.number ∧
        daysFromCivil .ok d.next.year d.next.month d.next.day = .ok (d.number + 1)) ∧
      (∀ (d : Date) (n : Nat),
        (daysFromCivil .ok d.year d.month d.day = .ok (n : Int) ↔ Date.next^[n] epoch = d) ∧
        (daysFromCivil .ok d.year d.month d.day = .ok (-n : Int) ↔ Date.next^[n] d = epoch)) ∧
      ∀ (value : List UInt8) (year : Int) (month : Nat) (day : Int),
        (get value 12 16).bind parseI64 = some year → 1 ≤ month ∧ month ≤ 12 →
        1 ≤ day ∧ day ≤ 31 →
        ∃ n, daysFromCivil i64 year month day = .ok n ∧
          daysFromCivil .ok year month day = .ok n := by
  have hnumber : ∀ (d : Date) (k : Int), daysFromCivil .ok d.year d.month d.day = .ok k ↔
      d.number = k := by
    intro d k
    rw [daysFromCivil_number, Outcome.ok.injEq]
  refine ⟨?_, ?_, ?_, ?_⟩
  · exact daysFromCivil_number epoch
  · intro d
    rw [daysFromCivil_number, daysFromCivil_number, number_next]
    exact ⟨rfl, rfl⟩
  · intro d n
    rw [hnumber, hnumber, iterate_next_iff, iterate_next_iff, number_epoch]
    omega
  · intro value year month day hyear hmonth hday
    exact ⟨_, daysFromCivil_i64 (num_bound hyear (by decide)) hmonth hday,
      daysFromCivil_eq (fun _ _ => rfl) hmonth hday⟩

/-- At the ends of the words the day does not fit. -/
example : daysFromCivil i64 (2 ^ 63 - 1) 3 1 = .panic .overflow := by decide

/-- Nothing overflows for a year of four characters. -/
theorem instant_eq (hyear : v.year.natAbs < 10000) (hposition : v.position < 12) (h : v.InRange) :
    (do
      let days ← i64 ((← daysFromCivil i64 v.year (v.position + 1) v.day) * 86400)
      let hours ← i64 (days + (← i64 (v.hour * 3600)))
      let minutes ← i64 (hours + (← i64 (v.minute * 60)))
      i64 (minutes + v.second)) = (Outcome.ok v.instant : Outcome Unit Int) := by
  obtain ⟨hday, hhour, hminute, hsecond⟩ := h
  have hmonth : 1 ≤ v.position + 1 ∧ v.position + 1 ≤ 12 := by omega
  have hdays : daysFromCivil i64 v.year (v.position + 1) v.day =
      .ok (yearStart v.year + daysOfMonths v.year v.position + (v.day - 1)) :=
    daysFromCivil_i64 hyear hmonth hday
  have hbound : (yearStart v.year + daysOfMonths v.year v.position + (v.day - 1)).natAbs ≤
      1000 * v.year.natAbs + 1000000 := days_bound hmonth hday
  unfold Values.instant
  generalize yearStart v.year + daysOfMonths v.year v.position + (v.day - 1) = days at *
  have hcarry : ∀ {n : Int} {f : Int → Outcome Unit Int}, n.natAbs < 2 ^ 63 →
      (i64 n >>= f) = f n := by
    intro n f hn
    rw [i64_of_bounds (by omega) (by omega), Outcome.bind_ok]
  rw [hdays, Outcome.bind_ok, hcarry (by omega), hcarry (by omega), hcarry (by omega),
    hcarry (by omega), hcarry (by omega), i64_of_bounds (by omega) (by omega)]

/-- One step of the parser, which is an end if there is nothing. -/
theorem bind_cases {α β : Type} {x : Outcome Unit α} {f : α → Outcome Unit β}
    {P : Outcome Unit β → Prop} (hsafe : x.Safe) (hnone : P (.err ()))
    (hsome : ∀ a, x = .ok a → P (f a)) : P (x >>= f) := by
  cases x with
  | ok a => exact hsome a rfl
  | err e => exact hnone
  | panic p => exact absurd rfl (hsafe p)

theorem safe_require {c : Prop} [Decidable c] : (require c).Safe := by
  unfold require
  split
  · exact Outcome.safe_ok ()
  · exact Outcome.safe_err ()

theorem safe_ofOption {α : Type} {x : Option α} : (ofOption x).Safe := by
  cases x with
  | none => exact Outcome.safe_err ()
  | some a => exact Outcome.safe_ok a

theorem safe_index {i : Nat} (h : i < s.length) : (index s i : Outcome Unit UInt8).Safe := by
  unfold index
  rw [List.getElem?_eq_getElem h]
  exact Outcome.safe_ok _

/-- The parser finds nothing, or an instant. -/
def Found (s : List UInt8) (result : Outcome Unit Int) : Prop :=
  result = .err () ∨ ∃ v, Sliced s v ∧ result = .ok v.instant

theorem parse_found (s : List UInt8) : Found s (parseHttpDateUnixSecs s) := by
  unfold parseHttpDateUnixSecs
  refine bind_cases safe_require (.inl rfl) fun _ hlength => ?_
  rw [require_eq_ok] at hlength
  refine bind_cases safe_require (.inl rfl) fun _ hgmt => ?_
  refine bind_cases (safe_index (by omega)) (.inl rfl) fun b₃ hb₃ => ?_
  refine bind_cases safe_require (.inl rfl) fun _ hcomma => ?_
  refine bind_cases (safe_index (by omega)) (.inl rfl) fun b₄ hb₄ => ?_
  refine bind_cases safe_require (.inl rfl) fun _ hblank => ?_
  refine bind_cases safe_ofOption (.inl rfl) fun day hday => ?_
  refine bind_cases safe_ofOption (.inl rfl) fun year hyear => ?_
  refine bind_cases safe_ofOption (.inl rfl) fun hour hhour => ?_
  refine bind_cases safe_ofOption (.inl rfl) fun minute hminute => ?_
  refine bind_cases safe_ofOption (.inl rfl) fun second hsecond => ?_
  refine bind_cases safe_ofOption (.inl rfl) fun name hname => ?_
  refine bind_cases safe_ofOption (.inl rfl) fun position hposition => ?_
  refine bind_cases safe_require (.inl rfl) fun _ hdayMem => ?_
  refine bind_cases safe_require (.inl rfl) fun _ hhourMem => ?_
  refine bind_cases safe_require (.inl rfl) fun _ hminuteMem => ?_
  refine bind_cases safe_require (.inl rfl) fun _ hsecondMem => ?_
  simp only [require_eq_ok, ofOption_eq_ok, index_eq_ok] at *
  subst hcomma hblank
  have hrange : Values.InRange ⟨day, position, year, hour, minute, second⟩ :=
    ⟨hdayMem, hhourMem, hminuteMem, hsecondMem⟩
  exact .inr ⟨⟨day, position, year, hour, minute, second⟩,
    ⟨hlength, hgmt, hb₃, hb₄, hday, hyear, hhour, hminute, hsecond, ⟨name, hname, hposition⟩,
      hrange⟩, instant_eq (num_bound hyear (by decide)) (position_lt hposition) hrange⟩

theorem parse_of_sliced (h : Sliced s v) : parseHttpDateUnixSecs s = .ok v.instant := by
  obtain ⟨name, hname, hposition⟩ := h.month
  have hthree : (index s 3 : Outcome Unit UInt8) = .ok 0x2C := index_eq_ok.mpr h.comma
  have hfour : (index s 4 : Outcome Unit UInt8) = .ok 0x20 := index_eq_ok.mpr h.blank
  have htrue : ∀ {c : Prop} [Decidable c], c → require c = .ok () := fun hc =>
    require_eq_ok.mpr hc
  unfold parseHttpDateUnixSecs
  rw [htrue h.length, htrue h.gmt, hthree, hfour]
  simp only [ofOption, h.day, h.year, h.hour, h.minute, h.second, hname, hposition,
    htrue h.inRange.day, htrue h.inRange.hour, htrue h.inRange.minute, htrue h.inRange.second,
    Outcome.bind_ok]
  exact instant_eq (num_bound h.year (by decide)) (position_lt hposition) h.inRange

theorem parse_safe (s : List UInt8) : (parseHttpDateUnixSecs s).Safe := by
  intro panic hpanic
  obtain h | ⟨v, -, h⟩ := parse_found s
  · rw [h] at hpanic
    cases hpanic
  · rw [h] at hpanic
    cases hpanic

/-! ## The pieces of what is accepted -/

theorem position_iff {name : List UInt8} {i : Nat} :
    months.findIdx? (fun m => m = name) = some i ↔ months[i]? = some name := by
  constructor
  · intro h
    obtain ⟨hi, hname, -⟩ := List.findIdx?_eq_some_iff_getElem.mp h
    rw [List.getElem?_eq_getElem hi, of_decide_eq_true hname]
  · intro h
    obtain ⟨hi, rfl⟩ := List.getElem?_eq_some_iff.mp h
    have hall : ∀ i : Fin 12, months.findIdx? (fun m => m = months[i]) = some i.val := by
      decide +kernel
    exact hall ⟨i, hi⟩

/-- The names are three letters. -/
theorem month_ascii {name : List UInt8} (h : name ∈ months) :
    name.length = 3 ∧ ∀ b ∈ name, b.toNat < 0x80 := by
  have hall : ∀ name ∈ months, name.length = 3 ∧ ∀ b ∈ name, b.toNat < 0x80 := by decide +kernel
  exact hall name h

theorem gmt_eq : toUtf8 " GMT" = [0x20, 0x47, 0x4D, 0x54] := by decide +kernel

namespace Pieces

theorem length_text (p : Pieces) : p.text.length = 29 := by
  simp only [text, gmt_eq, List.length_append, List.length_cons, List.length_nil, p.dayName_length,
    p.day_length, p.month_length, p.year_length, p.hour_length, p.minute_length, p.second_length]

/-- What is before each field. -/
def beforeDay (p : Pieces) : List UInt8 := p.dayName ++ [0x2C, 0x20]

def beforeMonth (p : Pieces) : List UInt8 := p.beforeDay ++ p.day ++ [p.afterDay]

def beforeYear (p : Pieces) : List UInt8 := p.beforeMonth ++ p.month ++ [p.afterMonth]

def beforeHour (p : Pieces) : List UInt8 := p.beforeYear ++ p.year ++ [p.afterYear]

def beforeMinute (p : Pieces) : List UInt8 := p.beforeHour ++ p.hour ++ [p.afterHour]

def beforeSecond (p : Pieces) : List UInt8 := p.beforeMinute ++ p.minute ++ [p.afterMinute]

theorem length_before (p : Pieces) : p.beforeDay.length = 5 ∧ p.beforeMonth.length = 8 ∧
    p.beforeYear.length = 12 ∧ p.beforeHour.length = 17 ∧ p.beforeMinute.length = 20 ∧
    p.beforeSecond.length = 23 := by
  simp [beforeDay, beforeMonth, beforeYear, beforeHour, beforeMinute, beforeSecond,
    p.dayName_length, p.day_length, p.month_length, p.year_length, p.hour_length,
    p.minute_length]

theorem text_eq (p : Pieces) : p.text = p.beforeSecond ++ (p.second ++ toUtf8 " GMT") := by
  simp [text, beforeDay, beforeMonth, beforeYear, beforeHour, beforeMinute, beforeSecond]

/-- The slices of a text are its pieces. -/
theorem sliced_iff : Sliced p.text v ↔ p.Reads v := by
  obtain ⟨hatDay, hatMonth, hatYear, hatHour, hatMinute, hatSecond⟩ := p.length_before
  have hday : (get p.text 5 7).bind parseI64 = some v.day ↔
      isContinuation p.afterDay = false ∧ signed p.day = some v.day :=
    num_eq_some p.beforeDay p.day (by simp [text, beforeDay]; rfl) (by decide) hatDay
      (by simp [p.day_length]) (by simp [p.day_length])
  have hyear : (get p.text 12 16).bind parseI64 = some v.year ↔
      isContinuation p.afterYear = false ∧ signed p.year = some v.year :=
    num_eq_some p.beforeYear p.year (by simp [text, beforeYear, beforeMonth, beforeDay]; rfl)
      (by decide) hatYear (by simp [p.year_length]) (by simp [p.year_length])
  have hhour : (get p.text 17 19).bind parseI64 = some v.hour ↔
      isContinuation p.afterHour = false ∧ signed p.hour = some v.hour :=
    num_eq_some p.beforeHour p.hour
      (by simp [text, beforeHour, beforeYear, beforeMonth, beforeDay]; rfl)
      (by decide) hatHour (by simp [p.hour_length]) (by simp [p.hour_length])
  have hminute : (get p.text 20 22).bind parseI64 = some v.minute ↔
      isContinuation p.afterMinute = false ∧ signed p.minute = some v.minute :=
    num_eq_some p.beforeMinute p.minute
      (by simp [text, beforeMinute, beforeHour, beforeYear, beforeMonth, beforeDay]; rfl)
      (by decide) hatMinute (by simp [p.minute_length]) (by simp [p.minute_length])
  have hsecond : (get p.text 23 25).bind parseI64 = some v.second ↔
      isContinuation 0x20 = false ∧ signed p.second = some v.second :=
    num_eq_some p.beforeSecond p.second (by rw [text_eq, gmt_eq]) (by decide) hatSecond
      (by simp [p.second_length]) (by simp [p.second_length])
  have hmonth : ∀ {name : List UInt8}, get p.text 8 11 = some name ↔ name = p.month ∧
      Starts (p.month ++ p.afterMonth :: _) ∧ Starts (p.afterMonth :: _) :=
    get_eq_some p.beforeMonth p.month (by simp [text, beforeMonth, beforeDay]; rfl) (by decide)
      hatMonth (by simp [p.month_length])
  constructor
  · intro h
    obtain ⟨name, hname, hposition⟩ := h.month
    obtain ⟨rfl, -, hafter⟩ := hmonth.mp hname
    obtain ⟨hafterDay, hd⟩ := hday.mp h.day
    obtain ⟨hafterYear, hy⟩ := hyear.mp h.year
    obtain ⟨hafterHour, hh⟩ := hhour.mp h.hour
    obtain ⟨hafterMinute, hm⟩ := hminute.mp h.minute
    refine ⟨hd, position_iff.mp hposition, hy, hh, hm, (hsecond.mp h.second).2, h.inRange, ?_⟩
    simp only [List.forall_mem_cons]
    exact ⟨hafterDay, starts_cons.mp hafter, hafterYear, hafterHour, hafterMinute, nofun⟩
  · intro h
    obtain ⟨hafterDay, hafterMonth, hafterYear, hafterHour, hafterMinute, -⟩ := by
      simpa only [List.forall_mem_cons] using h.between
    obtain ⟨hlength, hascii⟩ := month_ascii (List.mem_of_getElem? h.month)
    have hne : p.month ≠ [] := by
      intro hnil
      rw [hnil] at hlength
      cases hlength
    have hcomma : p.text[3]? = some 0x2C := by
      rw [text, List.getElem?_append_right (by rw [p.dayName_length]), p.dayName_length]
      rfl
    have hblank : p.text[4]? = some 0x20 := by
      rw [text, List.getElem?_append_right (by rw [p.dayName_length]; decide), p.dayName_length]
      rfl
    refine ⟨p.length_text, ⟨p.beforeSecond ++ p.second, ?_⟩, hcomma, hblank,
      hday.mpr ⟨hafterDay, h.day⟩, hyear.mpr ⟨hafterYear, h.year⟩,
      hhour.mpr ⟨hafterHour, h.hour⟩, hminute.mpr ⟨hafterMinute, h.minute⟩,
      hsecond.mpr ⟨rfl, h.second⟩, ⟨p.month, ?_, position_iff.mpr h.month⟩, h.inRange⟩
    · rw [text_eq, List.append_assoc]
    · exact hmonth.mpr ⟨rfl, starts_append hne hascii, starts_cons.mpr hafterMonth⟩

/-- A text and its pieces determine each other. -/
theorem text_injective (h : p.text = q.text) : p = q := by
  cases p
  cases q
  obtain ⟨hdayName, h⟩ := List.append_inj h (by simp only [*])
  obtain ⟨hday, h⟩ := List.append_inj (List.cons_inj_right _ |>.mp
    (List.cons_inj_right _ |>.mp h)) (by simp only [*])
  obtain ⟨hafterDay, h⟩ := List.cons.inj h
  obtain ⟨hmonth, h⟩ := List.append_inj h (by simp only [*])
  obtain ⟨hafterMonth, h⟩ := List.cons.inj h
  obtain ⟨hyear, h⟩ := List.append_inj h (by simp only [*])
  obtain ⟨hafterYear, h⟩ := List.cons.inj h
  obtain ⟨hhour, h⟩ := List.append_inj h (by simp only [*])
  obtain ⟨hafterHour, h⟩ := List.cons.inj h
  obtain ⟨hminute, h⟩ := List.append_inj h (by simp only [*])
  obtain ⟨hafterMinute, h⟩ := List.cons.inj h
  obtain ⟨hsecond, -⟩ := List.append_inj h (by simp only [*])
  subst hdayName hday hafterDay hmonth hafterMonth hyear hafterYear hhour hafterHour hminute
    hafterMinute hsecond
  rfl

end Pieces

/-- A piece of a text, and the byte after it. -/
theorem exists_piece (n m : Nat) (h : s.length = n + 1 + m) :
    ∃ piece b rest, s = piece ++ b :: rest ∧ piece.length = n ∧ rest.length = m := by
  have hn : n < s.length := by omega
  refine ⟨s.take n, s[n], s.drop (n + 1), ?_, ?_, ?_⟩
  · rw [← List.drop_eq_getElem_cons hn, List.take_append_drop]
  · rw [List.length_take]
    omega
  · rw [List.length_drop]
    omega

theorem exists_pieces (h : Sliced s v) : ∃ p : Pieces, p.text = s := by
  obtain ⟨dayName, b₃, rest, rfl, hdayName, h₂₅⟩ := exists_piece 3 25 h.length
  obtain ⟨empty, b₄, rest, rfl, hempty, h₂₄⟩ := exists_piece 0 24 h₂₅
  obtain ⟨day, afterDay, rest, rfl, hday, h₂₁⟩ := exists_piece 2 21 h₂₄
  obtain ⟨month, afterMonth, rest, rfl, hmonth, h₁₇⟩ := exists_piece 3 17 h₂₁
  obtain ⟨year, afterYear, rest, rfl, hyear, h₁₂⟩ := exists_piece 4 12 h₁₇
  obtain ⟨hour, afterHour, rest, rfl, hhour, h₉⟩ := exists_piece 2 9 h₁₂
  obtain ⟨minute, afterMinute, rest, rfl, hminute, h₆⟩ := exists_piece 2 6 h₉
  obtain ⟨second, b, rest, rfl, hsecond, h₃⟩ := exists_piece 2 3 h₆
  obtain rfl := List.length_eq_zero_iff.mp hempty
  let p : Pieces := ⟨dayName, day, afterDay, month, afterMonth, year, afterYear, hour, afterHour,
    minute, afterMinute, second, hdayName, hday, hmonth, hyear, hhour, hminute, hsecond⟩
  have hcomma := h.comma
  have hblank := h.blank
  rw [List.getElem?_append_right (by omega), hdayName] at hcomma hblank
  obtain rfl : b₃ = 0x2C := by simpa using hcomma
  obtain rfl : b₄ = 0x20 := by simpa using hblank
  have hend : toUtf8 " GMT" = b :: rest := by
    have hsuffix : b :: rest <:+ dayName ++ 0x2C :: ([] ++ 0x20 :: (day ++ afterDay :: (month ++
        afterMonth :: (year ++ afterYear :: (hour ++ afterHour :: (minute ++ afterMinute ::
          (second ++ b :: rest))))))) := ⟨p.beforeSecond ++ second, by
      simp [p, Pieces.beforeSecond, Pieces.beforeMinute, Pieces.beforeHour, Pieces.beforeYear,
        Pieces.beforeMonth, Pieces.beforeDay]⟩
    have hsame : (toUtf8 " GMT").length = (b :: rest).length := by
      rw [gmt_eq]
      exact (congrArg Nat.succ h₃).symm
    exact (List.suffix_of_suffix_length_le h.gmt hsuffix hsame.le).eq_of_length hsame
  refine ⟨p, ?_⟩
  rw [Pieces.text, hend]
  rfl

/-- What the parser accepts, and the instant that it makes of it. -/
theorem parse_iff :
    parseHttpDateUnixSecs s = .ok t ↔ ∃ (p : Pieces) (v : Values),
      p.text = s ∧ p.Reads v ∧ v.instant = t := by
  constructor
  · intro h
    obtain hnone | ⟨v, hsliced, hv⟩ := parse_found s
    · rw [hnone] at h
      cases h
    · obtain ⟨p, rfl⟩ := exists_pieces hsliced
      rw [hv, Outcome.ok.injEq] at h
      exact ⟨p, v, rfl, Pieces.sliced_iff.mp hsliced, h⟩
  · rintro ⟨p, v, rfl, hreads, rfl⟩
    exact parse_of_sliced (Pieces.sliced_iff.mpr hreads)

/-! ## The dates of the grammar -/

theorem dayName_length {name : List UInt8} (h : name ∈ dayNames) : name.length = 3 := by
  have hall : ∀ name ∈ dayNames, name.length = 3 := by decide +kernel
  exact hall name h

/-- Digits without a sign are a field. -/
theorem field_iff {width k : Nat} {ds : List UInt8} (hlength : ds.length = width) :
    Field width ds k ↔ ¬ HasSign ds ∧ signed ds = some (k : Int) := by
  constructor
  · rintro ⟨-, h⟩
    exact ⟨not_hasSign h, signed_of_decimal h⟩
  · rintro ⟨hsign, h⟩
    rw [signed_of_not_sign hsign, Option.map_eq_some_iff] at h
    obtain ⟨m, hm, hk⟩ := h
    obtain rfl : m = k := Int.ofNat.inj hk
    exact ⟨hlength, hm⟩

theorem field_of_signed {width : Nat} {ds : List UInt8} (hlength : ds.length = width)
    (hsign : ¬ HasSign ds) (h : signed ds = some n) : ∃ k : Nat, n = k ∧ Field width ds k := by
  have hdigits := h
  rw [signed_of_not_sign hsign, Option.map_eq_some_iff] at hdigits
  obtain ⟨k, -, rfl⟩ := hdigits
  exact ⟨k, rfl, (field_iff hlength).mpr ⟨hsign, h⟩⟩

theorem text_eq_dateText (hblanks : p.afterDay = 0x20 ∧ p.afterMonth = 0x20 ∧ p.afterYear = 0x20)
    (hcolons : p.afterHour = 0x3A ∧ p.afterMinute = 0x3A) :
    p.text = dateText p.dayName p.day p.month p.year p.hour p.minute p.second := by
  have hcomma : toUtf8 ", " = [0x2C, 0x20] := by decide +kernel
  have hblank : toUtf8 " " = [0x20] := by decide +kernel
  have hcolon : toUtf8 ":" = [0x3A] := by decide +kernel
  simp [Pieces.text, dateText, hblanks, hcolons, hcomma, hblank, hcolon]

/-- A date of the grammar is made of accepted pieces that are exact. -/
theorem exact_of_imfFixdate (h : ImfFixdate s t) : ∃ (p : Pieces) (v : Values),
    p.text = s ∧ p.Reads v ∧ p.Exact v ∧ v.instant = t := by
  obtain @⟨dayName, dd, monthName, yyyy, hh, mm, ss, date, year, hour, minute, second, hname, hday,
    hmonth, hyear, hyearEq, hhour, hhourLe, hminute, hminuteLe, hsecond, hsecondLe⟩ := h
  have hdate := date.day_mem
  have hmonthMem := date.month_mem
  have hle : date.day ≤ 31 := le_trans hdate.2 monthLength_le
  obtain ⟨hdaySign, hdaySigned⟩ := (field_iff hday.1).mp hday
  obtain ⟨hyearSign, hyearSigned⟩ := (field_iff hyear.1).mp hyear
  obtain ⟨hhourSign, hhourSigned⟩ := (field_iff hhour.1).mp hhour
  obtain ⟨hminuteSign, hminuteSigned⟩ := (field_iff hminute.1).mp hminute
  obtain ⟨hsecondSign, hsecondSigned⟩ := (field_iff hsecond.1).mp hsecond
  let p : Pieces := ⟨dayName, dd, 0x20, monthName, 0x20, yyyy, 0x20, hh, 0x3A, mm, 0x3A, ss,
    dayName_length hname, hday.1, (month_ascii (List.mem_of_getElem? hmonth)).1, hyear.1, hhour.1,
    hminute.1, hsecond.1⟩
  let v : Values := ⟨date.day, date.month - 1, year, hour, minute, second⟩
  have hrange : v.InRange := by
    refine ⟨?_, ?_, ?_, ?_⟩
    all_goals
      dsimp only [v]
      omega
  have hbetween : ∀ b ∈ [p.afterDay, p.afterMonth, p.afterYear, p.afterHour, p.afterMinute],
      isContinuation b = false := by
    simp only [List.forall_mem_cons]
    exact ⟨rfl, rfl, rfl, rfl, rfl, nofun⟩
  have hdigits : ∀ ds ∈ [p.day, p.year, p.hour, p.minute, p.second], ¬ HasSign ds := by
    simp only [List.forall_mem_cons]
    exact ⟨hdaySign, hyearSign, hhourSign, hminuteSign, hsecondSign, nofun⟩
  have hexists : v.day ≤ monthLength v.year (v.position + 1) := by
    show (date.day : Int) ≤ monthLength year (date.month - 1 + 1)
    rw [Nat.sub_add_cancel hmonthMem.1, ← hyearEq]
    exact Int.ofNat_le.mpr hdate.2
  refine ⟨p, v, text_eq_dateText ⟨rfl, rfl, rfl⟩ ⟨rfl, rfl⟩,
    ⟨hdaySigned, hmonth, hyearSigned, hhourSigned, hminuteSigned, hsecondSigned, hrange, hbetween⟩,
    ⟨hname, ⟨rfl, rfl, rfl⟩, ⟨rfl, rfl⟩, hdigits, hexists⟩, ?_⟩
  unfold Values.instant Date.number
  rw [hyearEq]

/-- Accepted pieces that are exact are a date of the grammar. -/
theorem imfFixdate_of_exact (hreads : p.Reads v) (hexact : p.Exact v) :
    ImfFixdate p.text v.instant := by
  obtain ⟨hdaySign, hyearSign, hhourSign, hminuteSign, hsecondSign, -⟩ := by
    simpa only [List.forall_mem_cons] using hexact.digits
  obtain ⟨day, hdayEq, hday⟩ := field_of_signed p.day_length hdaySign hreads.day
  obtain ⟨year, hyearEq, hyear⟩ := field_of_signed p.year_length hyearSign hreads.year
  obtain ⟨hour, hhourEq, hhour⟩ := field_of_signed p.hour_length hhourSign hreads.hour
  obtain ⟨minute, hminuteEq, hminute⟩ := field_of_signed p.minute_length hminuteSign hreads.minute
  obtain ⟨second, hsecondEq, hsecond⟩ := field_of_signed p.second_length hsecondSign hreads.second
  have hposition : v.position < 12 := (List.getElem?_eq_some_iff.mp hreads.month).1
  obtain ⟨hdayMem, hhourMem, hminuteMem, hsecondMem⟩ := hreads.inRange
  have hexists := hexact.exists_day
  let date : Date := ⟨v.year, v.position + 1, day, by omega, by omega⟩
  have himf : ImfFixdate (dateText p.dayName p.day p.month p.year p.hour p.minute p.second)
      (date.number * 86400 + hour * 3600 + minute * 60 + second) :=
    .mk hexact.dayName hday hreads.month hyear hyearEq hhour (by omega) hminute (by omega) hsecond
      (by omega)
  have hinstant : v.instant = date.number * 86400 + hour * 3600 + minute * 60 + second := by
    unfold Values.instant Date.number
    rw [hdayEq, hhourEq, hminuteEq, hsecondEq]
    rfl
  rw [text_eq_dateText hexact.blanks hexact.colons, hinstant]
  exact himf

/-- The dates of the grammar are accepted. -/
theorem parse_of_imfFixdate (h : ImfFixdate s t) : parseHttpDateUnixSecs s = .ok t := by
  obtain ⟨p, v, htext, hreads, -, hinstant⟩ := exact_of_imfFixdate h
  exact parse_iff.mpr ⟨p, v, htext, hreads, hinstant⟩

end Schemreg.RetryAfter
