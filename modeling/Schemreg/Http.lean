import Schemreg.Types
import Schemreg.Utf8

/-
  `src/http.rs`: the retry loop, what the registry clients check in a subject and how they
  spell it in a path, and what they read of a response.

  The transport itself (the connection and its redirects) is not modelled: a client has it as
  a parameter. The delays between attempts are left out. Header names are lowercase, as
  `HttpClient` stores them.
-/

namespace Schemreg

/-- `HttpResponse`: the parts that the clients read. -/
structure HttpResponse where
  status : UInt16
  headers : List (String × String)
  body : List UInt8
  deriving DecidableEq, Repr

/-- `headers.get`. -/
def HttpResponse.header (resp : HttpResponse) (name : String) : Option String :=
  resp.headers.lookup name

/-- `str::trim`, of a header value: its only white space is the blank and the tab. -/
def trimBlanks (cs : List Char) : List Char :=
  let blank (c : Char) : Bool := c = ' ' || c = '\t'
  ((cs.dropWhile blank).reverse.dropWhile blank).reverse

/-- `content_type`: the media type of the header, without its parameters. -/
def HttpResponse.contentType (resp : HttpResponse) : Option String :=
  (resp.header "content-type").map fun value =>
    String.ofList (trimBlanks (value.toList.takeWhile (· ≠ ';')))

/-! ## Requests -/

/-- The status warrants a retry: 429 and the server errors. -/
def isRetryableStatus (status : UInt16) : Bool := status = 429 || (500 ≤ status && status < 600)

namespace HttpClient

variable {σ : Type}

/-- `HttpClient::request`, over attempts that act on a state `σ`. `retries` is what is left of
    the policy's `max_retries`. -/
def request (requestOnce : σ → Result HttpResponse × σ) : Nat → σ → Result HttpResponse × σ
  | 0, world => requestOnce world
  | retries + 1, world =>
      match requestOnce world with
      | (.ok resp, world) =>
          if isRetryableStatus resp.status then request requestOnce retries world
          else (.ok resp, world)
      | (.error _, world) => request requestOnce retries world

end HttpClient

/-! ## Path segments -/

/-- `PATH_SEGMENT_ENCODE_SET`: the controls, and the characters `/ \ ? # % @ ^ < > " [ ] { }`,
    the blank and the backquote. -/
def pathSegmentEncodeSet (b : UInt8) : Bool :=
  b < 0x20 || b = 0x7F || b ∈ [0x20, 0x22, 0x23, 0x3C, 0x3E, 0x3F, 0x60, 0x7B, 0x7D, 0x2F, 0x25,
    0x5B, 0x5D, 0x5C, 0x5E, 0x40]

/-- The hexadecimal digit that the percent encoding writes for `n < 16`. -/
def upperHexDigit (n : Nat) : Char :=
  if n < 10 then Char.ofNat (0x30 + n) else Char.ofNat (0x41 + (n - 10))

/-- A byte of a path segment as it stands in the path. -/
def percentEncodeByte (b : UInt8) : List Char :=
  if 0x80 ≤ b || pathSegmentEncodeSet b then
    ['%', upperHexDigit (b.toNat / 16), upperHexDigit (b.toNat % 16)]
  else [Char.ofNat b.toNat]

/-- Percent-encode a path segment. -/
def percentEncode (input : String) : String :=
  String.ofList ((Utf8.toUtf8 input).flatMap percentEncodeByte)

/-! ## Subjects -/

def maxSubjectLen : Nat := 512

/-- `char::to_digit(16)`. -/
def hexDigit (b : UInt8) : Option UInt8 :=
  if 0x30 ≤ b && b ≤ 0x39 then some (b - 0x30)
  else if 0x41 ≤ b && b ≤ 0x46 then some (b - 0x41 + 10)
  else if 0x61 ≤ b && b ≤ 0x66 then some (b - 0x61 + 10)
  else none

/-- `percent_decode`: a `%` without two hexadecimal digits after it stands for itself. -/
def percentDecode : List UInt8 → List UInt8
  | 0x25 :: h :: l :: rest =>
      match hexDigit h, hexDigit l with
      | some high, some low => (high * 16 + low) :: percentDecode rest
      | _, _ => 0x25 :: percentDecode (h :: l :: rest)
  | b :: rest => b :: percentDecode rest
  | [] => []

/-- Reject `.` and `..` path segments. -/
def hasNoDotSegments (candidate : String) : Result Unit :=
  if (candidate.toList.splitOnP fun c => c = '/' || c = '\\').any
      fun segment => segment = ['.', '.'] || segment = ['.'] then
    .error (.config "subject name must not contain '.' or '..' path segments")
  else .ok ()

/-- Validate a subject name before it is spliced into a URL path. The second check screens
    what an intermediary that decodes the path twice would see. -/
def validateSubject (subject : String) : Result Unit := do
  if subject.isEmpty then
    .error (.config "subject name must not be empty")
  if subject.utf8ByteSize > maxSubjectLen then
    .error (.config ("subject name is " ++ subject.utf8ByteSize.repr ++
      " bytes, exceeding the " ++ maxSubjectLen.repr ++ "-byte limit"))
  hasNoDotSegments subject
  if subject.toList.contains '%' then
    let decoded := Utf8.fromUtf8Lossy (percentDecode (Utf8.toUtf8 subject))
    if decoded ≠ subject then
      hasNoDotSegments decoded

end Schemreg
