import Mathlib.Data.List.Basic

/-
  Decoding UTF-8 the way the Rust standard library does.

  `next` reads one character. Where the bytes are not UTF-8 it says, as `Utf8Error` does, how
  many of them are wrong: `none` if the input ends in the middle of a character. `fromUtf8`
  stops there; `fromUtf8Lossy` puts the replacement character and goes on.
-/

namespace Utf8

/-- `Utf8Error`. -/
structure Utf8Error where
  validUpTo : Nat
  errorLen : Option Nat
  deriving DecidableEq, Repr

/-- `Display`. -/
def Utf8Error.toString (e : Utf8Error) : String :=
  match e.errorLen with
  | some n => "invalid utf-8 sequence of " ++ n.repr ++ " bytes from index " ++ e.validUpTo.repr
  | none => "incomplete utf-8 byte sequence from index " ++ e.validUpTo.repr

def isContinuation (b : UInt8) : Bool := 0x80 ≤ b && b ≤ 0xBF

/-- What may follow the first byte of a character of three bytes. -/
def second3 (first b : UInt8) : Bool :=
  if first = 0xE0 then 0xA0 ≤ b && b ≤ 0xBF
  else if first = 0xED then 0x80 ≤ b && b ≤ 0x9F
  else isContinuation b

/-- What may follow the first byte of a character of four bytes. -/
def second4 (first b : UInt8) : Bool :=
  if first = 0xF0 then 0x90 ≤ b && b ≤ 0xBF
  else if first = 0xF4 then 0x80 ≤ b && b ≤ 0x8F
  else isContinuation b

inductive Next where
  | done
  | char (c : Char) (width : Nat)
  | bad (errorLen : Option Nat)

/-- The character of some bits of the first byte and six bits of each other byte. -/
def charOf (lead : Nat) (rest : List UInt8) : Char :=
  Char.ofNat (rest.foldl (fun n b => n * 64 + b.toNat % 64) lead)

def next2 (first : UInt8) : List UInt8 → Next
  | [] => .bad none
  | b :: _ =>
      if isContinuation b then .char (charOf (first.toNat % 32) [b]) 2 else .bad (some 1)

def next3 (first : UInt8) : List UInt8 → Next
  | [] => .bad none
  | b :: rest =>
      if second3 first b then
        match rest with
        | [] => .bad none
        | b' :: _ =>
            if isContinuation b' then .char (charOf (first.toNat % 16) [b, b']) 3
            else .bad (some 2)
      else .bad (some 1)

def next4 (first : UInt8) : List UInt8 → Next
  | [] => .bad none
  | b :: rest =>
      if second4 first b then
        match rest with
        | [] => .bad none
        | b' :: rest =>
            if isContinuation b' then
              match rest with
              | [] => .bad none
              | b'' :: _ =>
                  if isContinuation b'' then .char (charOf (first.toNat % 8) [b, b', b'']) 4
                  else .bad (some 3)
            else .bad (some 2)
      else .bad (some 1)

/-- The next character, by the width that its first byte announces. -/
def next : List UInt8 → Next
  | [] => .done
  | first :: rest =>
      if first < 0x80 then .char (charOf first.toNat []) 1
      else if 0xC2 ≤ first && first ≤ 0xDF then next2 first rest
      else if 0xE0 ≤ first && first ≤ 0xEF then next3 first rest
      else if 0xF0 ≤ first && first ≤ 0xF4 then next4 first rest
      else .bad (some 1)

/-- Read up to `n` characters; `start` is the index of the first byte. -/
def decode : Nat → Nat → List UInt8 → Except Utf8Error (List Char)
  | 0, _, _ => .ok []
  | n + 1, start, bytes =>
      match next bytes with
      | .done => .ok []
      | .char c width => (decode n (start + width) (bytes.drop width)).map (c :: ·)
      | .bad errorLen => .error ⟨start, errorLen⟩

/-- `String::from_utf8`. No input has more characters than bytes. -/
def fromUtf8 (bytes : List UInt8) : Except Utf8Error String :=
  (decode bytes.length 0 bytes).map String.ofList

def decodeLossy : Nat → List UInt8 → List Char
  | 0, _ => []
  | n + 1, bytes =>
      match next bytes with
      | .done => []
      | .char c width => c :: decodeLossy n (bytes.drop width)
      | .bad (some len) => '\uFFFD' :: decodeLossy n (bytes.drop len)
      | .bad none => ['\uFFFD']

/-- `String::from_utf8_lossy`. -/
def fromUtf8Lossy (bytes : List UInt8) : String := String.ofList (decodeLossy bytes.length bytes)

/-- The bytes of a string. -/
def toUtf8 (s : String) : List UInt8 := s.toList.flatMap String.utf8EncodeChar

end Utf8
