/-!
# Binary64 numbers as exact quantities

A finite binary64 number is `± significand * 2 ^ exponent`. Taking words apart and putting them
together is exact, and so is the remainder of two numbers.
-/

namespace Blockflow.Number

/-- A number as a significand times a power of two. -/
structure Magnitude where
  significand : Nat
  exponent : Int
  deriving DecidableEq, Repr

def fractionBits (word : UInt64) : Nat := word.toNat % 1 <<< 52

def exponentBits (word : UInt64) : Nat := word.toNat >>> 52 % 1 <<< 11

def signBit (word : UInt64) : Bool := 1 <<< 63 ≤ word.toNat

def isNanWord (word : UInt64) : Bool := exponentBits word == 2047 && fractionBits word != 0

def isInfiniteWord (word : UInt64) : Bool := exponentBits word == 2047 && fractionBits word == 0

/-- The number that a word stands for, but for the sign. -/
def magnitude (word : UInt64) : Magnitude :=
  if exponentBits word == 0 then ⟨fractionBits word, -1074⟩
  else ⟨1 <<< 52 + fractionBits word, (exponentBits word : Int) - 1075⟩

/-- The word of a number that is represented exactly. -/
def wordOfMagnitude (value : Magnitude) : Nat :=
  let m := value.significand
  if m == 0 then 0
  else
    let exponent := value.exponent + m.log2 - 52
    if exponent < -1074 then
      if value.exponent < -1074 then m >>> (-1074 - value.exponent).toNat
      else m <<< (value.exponent + 1074).toNat
    else
      let significand := if m.log2 ≤ 52 then m <<< (52 - m.log2) else m >>> (m.log2 - 52)
      (exponent + 1074).toNat <<< 52 + significand

def ofMagnitude (negative : Bool) (value : Magnitude) : Float :=
  let word := wordOfMagnitude value
  Float.ofBits (UInt64.ofNat (if negative then 1 <<< 63 + word else word))

def nan : Float := Float.ofBits 0x7FF8000000000000

/-- The binary64 word of a binary32 word: every binary32 number is a binary64 number. -/
def widen (word : UInt32) : UInt64 :=
  let negative := 1 <<< 31 ≤ word.toNat
  let exponent : Nat := word.toNat >>> 23 % 1 <<< 8
  let fraction : Nat := word.toNat % 1 <<< 23
  let body :=
    if exponent == 255 then
      2047 <<< 52 + fraction <<< 29 + (if fraction == 0 || 1 <<< 22 ≤ fraction then 0 else 1 <<< 51)
    else if exponent == 0 then wordOfMagnitude ⟨fraction, -149⟩
    else wordOfMagnitude ⟨1 <<< 23 + fraction, (exponent : Int) - 150⟩
  UInt64.ofNat (if negative then 1 <<< 63 + body else body)

/-- The remainder of the division that truncates towards zero, with the sign of the dividend. It is
exact: both magnitudes are whole multiples of the smaller power of two, and so is the remainder. -/
def remainder (x y : Float) : Float :=
  let wx := x.toBits
  let wy := y.toBits
  if isNanWord wx || isNanWord wy || isInfiniteWord wx then nan
  else if isInfiniteWord wy then x
  else
    let a := magnitude wx
    let b := magnitude wy
    if b.significand == 0 then nan
    else
      let unit := min a.exponent b.exponent
      let left := a.significand <<< (a.exponent - unit).toNat
      let right := b.significand <<< (b.exponent - unit).toNat
      ofMagnitude (signBit wx) ⟨left % right, unit⟩

end Blockflow.Number
