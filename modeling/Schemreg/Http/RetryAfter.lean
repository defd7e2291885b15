import Mathlib.Data.List.DropRight
import Schemreg.Lib.Checked
import Schemreg.Lib.Decimal
import Schemreg.Lib.Saturating
import Schemreg.Utf8

/-
  `src/http.rs`: the `Retry-After` header.

  A string is sliced and parsed by its bytes. Every operation of `i64` and `u64` that can
  overflow is checked, so that a result that is no panic is one that both builds give. The error
  of a function is its `None`.
-/

namespace Schemreg.RetryAfter

open Checked Saturating Decimal Utf8

/-! ## Strings -/

/-- `char::is_whitespace`: the `White_Space` property. -/
def isWhitespace (c : Char) : Bool :=
  (0x09 ≤ c.toNat && c.toNat ≤ 0x0D) || (0x2000 ≤ c.toNat && c.toNat ≤ 0x200A) ||
    [0x20, 0x85, 0xA0, 0x1680, 0x2028, 0x2029, 0x202F, 0x205F, 0x3000].contains c.toNat

/-- `str::trim`. -/
def trim (s : String) : String :=
  String.ofList ((s.toList.dropWhile isWhitespace).rdropWhile isWhitespace)

/-- `str::is_char_boundary`. -/
def isCharBoundary (s : List UInt8) (i : Nat) : Bool :=
  i = 0 ||
    match s[i]? with
    | some b => !isContinuation b
    | none => i = s.length

/-- `str::get` of a range. -/
def get (s : List UInt8) (lo hi : Nat) : Option (List UInt8) :=
  if lo ≤ hi ∧ isCharBoundary s lo = true ∧ isCharBoundary s hi = true then
    some ((s.drop lo).take (hi - lo))
  else none

/-- `str::parse::<u64>`. -/
def parseU64 (s : List UInt8) : Option UInt64 :=
  (unsigned s).bind fun n => if n < 2 ^ 64 then some (UInt64.ofNat n) else none

/-- `str::parse::<i64>`. -/
def parseI64 (s : List UInt8) : Option Int :=
  (signed s).bind fun n => if -2 ^ 63 ≤ n ∧ n < 2 ^ 63 then some n else none

/-! ## The header -/

/-- `MONTHS`. -/
def months : List (List UInt8) :=
  ["Jan", "Feb", "Mar", "Apr", "May", "Jun", "Jul", "Aug", "Sep", "Oct", "Nov", "Dec"].map toUtf8

/-- `days_from_civil`. What becomes of a result that does not fit the integers is an argument:
    `i64` for the code, `Outcome.ok` for unbounded integers. -/
def daysFromCivil (word : Int → Outcome Unit Int) (year month day : Int) : Outcome Unit Int := do
  let y ← (if month ≤ 2 then word (year - 1) else .ok year)
  let start ← (if 0 ≤ y then .ok y else word (y - 399))
  let era := Int.tdiv start 400
  let yoe ← word (y - (← word (era * 400)))
  let mp := Int.tmod (← word (month + 9)) 12
  let doy ← word ((← word (Int.tdiv (← word ((← word (153 * mp)) + 2)) 5 + day)) - 1)
  let years ← word ((← word (yoe * 365)) + Int.tdiv yoe 4)
  let doe ← word ((← word (years - Int.tdiv yoe 100)) + doy)
  word ((← word ((← word (era * 146097)) + doe)) - 719468)

/-- `parse_http_date_unix_secs`. -/
def parseHttpDateUnixSecs (value : List UInt8) : Outcome Unit Int := do
  require (value.length = 29)
  require (toUtf8 " GMT" <:+ value)
  require ((← index value 3) = 0x2C)
  require ((← index value 4) = 0x20)
  let num (lo hi : Nat) : Outcome Unit Int := ofOption ((get value lo hi).bind parseI64)
  let day ← num 5 7
  let year ← num 12 16
  let hour ← num 17 19
  let min ← num 20 22
  let sec ← num 23 25
  let monthName ← ofOption (get value 8 11)
  let position ← ofOption (months.findIdx? fun m => m = monthName)
  let month : Int := position + 1
  require (1 ≤ day ∧ day ≤ 31)
  require (0 ≤ hour ∧ hour ≤ 23)
  require (0 ≤ min ∧ min ≤ 59)
  require (0 ≤ sec ∧ sec ≤ 60)
  let days ← i64 ((← daysFromCivil i64 year month day) * 86400)
  let hours ← i64 (days + (← i64 (hour * 3600)))
  let minutes ← i64 (hours + (← i64 (min * 60)))
  i64 (minutes + sec)

/-- `parse_retry_after_ms`, when the clock shows so many seconds since 1970: negative before. -/
def parseRetryAfterMs (now : Int64) (value : String) : Outcome Unit UInt64 :=
  let value := toUtf8 (trim value)
  match parseU64 value with
  | some secs => .ok (saturatingMul secs 1000)
  | none => do
      let target ← parseHttpDateUnixSecs value
      require (0 ≤ now.toInt)
      let distance ← i64 (target - now.toInt)
      mulU64 (UInt64.ofNat (max distance 0).toNat) 1000

end Schemreg.RetryAfter
