/-!
# Decimal numbers

Whole numbers written in decimal digits, with an optional sign, between two bounds. A minus sign is
taken only where negative numbers are.
-/

namespace Blockflow.Text

def ofDigits (digits : List Char) : Nat :=
  digits.foldl (fun n c => 10 * n + (c.toNat - '0'.toNat)) 0

def natural? (digits : List Char) : Option Nat :=
  if digits.isEmpty || !digits.all Char.isDigit then none else some (ofDigits digits)

def signed? (negative : Bool) : List Char → Option Int
  | '+' :: digits => (natural? digits).map Int.ofNat
  | '-' :: digits => if negative then (natural? digits).map fun n => -Int.ofNat n else none
  | digits => (natural? digits).map Int.ofNat

/-- A number within bounds; a minus is only read if it may be negative. -/
def decimal? (least greatest : Int) (text : String) : Option Int :=
  (signed? (decide (least < 0)) text.toList).filter fun n => least ≤ n && n ≤ greatest

end Blockflow.Text
