import Blockflow.Number.Shortest

/-!
# Numbers as text

Floating-point numbers are shown with the fewest digits that read back, from `1e-4` up to `1e16`
written out with at least one digit after the point, otherwise with an exponent.
-/

namespace Blockflow.Number

/-- The digits without zeros at the end. -/
def trimmedDigits (n : Nat) : List Char :=
  ((Nat.toDigits 10 n).reverse.dropWhile (· == '0')).reverse

def zeros (count : Nat) : List Char := List.replicate count '0'

/-- Digits with the point inside or beside them. -/
def positional (digits : List Char) (point : Int) : List Char :=
  if point ≤ 0 then
    '0' :: '.' :: (zeros (-point).toNat ++ digits)
  else if digits.length ≤ point.toNat then
    digits ++ zeros (point.toNat - digits.length) ++ ['.', '0']
  else digits.take point.toNat ++ '.' :: digits.drop point.toNat

/-- Digits with an exponent. -/
def scientific (digits : List Char) (point : Int) : List Char :=
  let fraction := digits.drop 1
  digits.take 1 ++ (if fraction.isEmpty then [] else '.' :: fraction)
    ++ 'e' :: (toString (point - 1)).toList

def showMagnitude (value : Magnitude) : String :=
  let decimal := shortest value
  let digits := trimmedDigits decimal.digits
  String.ofList (if -4 < decimal.point && decimal.point ≤ 16 then positional digits decimal.point
    else scientific digits decimal.point)

def showWord (word : UInt64) : String :=
  if isNanWord word then "NaN"
  else
    let body :=
      if isInfiniteWord word then "inf"
      else if (magnitude word).significand == 0 then "0.0"
      else showMagnitude (magnitude word)
    if signBit word then "-" ++ body else body

end Blockflow.Number
