import Blockflow.Number.Binary64

/-! # Numbers read from text -/

namespace Blockflow.Number

def isDigit (c : Char) : Bool := '0' ≤ c && c ≤ '9'

def ofDigits (digits : List Char) : Nat :=
  digits.foldl (fun n c => 10 * n + (c.toNat - '0'.toNat)) 0

/-- The number nearest to `mantissa * 10 ^ exponent`. Exponents far outside the range of binary64
are answered without computing the power. -/
def ofDecimal (mantissa : Nat) (exponent : Int) : Float :=
  let length : Int := (Nat.toDigits 10 mantissa).length
  if mantissa == 0 || length + exponent < -400 then 0
  else if 400 < length + exponent then Float.ofBits 0x7FF0000000000000
  else Float.ofScientific mantissa (exponent < 0) exponent.natAbs

def splitSign : List Char → Bool × List Char
  | '-' :: rest => (true, rest)
  | '+' :: rest => (false, rest)
  | rest => (false, rest)

def writtenExponent : List Char → Int
  | _ :: rest =>
    let (negative, digits) := splitSign rest
    if negative then -(ofDigits digits : Int) else ofDigits digits
  | [] => 0

/-- The number nearest to a decimal written as digits, an optional fraction and an optional
exponent, behind an optional sign. -/
def ofWritten (text : List Char) : Float :=
  let (negative, body) := splitSign text
  let whole := body.takeWhile isDigit
  let rest := body.dropWhile isDigit
  let (fraction, rest) :=
    match rest with
    | '.' :: tail => (tail.takeWhile isDigit, tail.dropWhile isDigit)
    | rest => ([], rest)
  let value := ofDecimal (ofDigits (whole ++ fraction)) (writtenExponent rest - fraction.length)
  if negative then -value else value

end Blockflow.Number
