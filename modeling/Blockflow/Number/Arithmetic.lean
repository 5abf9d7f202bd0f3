import Blockflow.Number.Binary64

/-!
# Arithmetic on binary64 words

Numbers are handled as words, because two NaNs may differ. An operation hands on the first NaN among
its operands, made quiet; numbers without a result give `undefinedWord`.
-/

namespace Blockflow.Number

/-- A NaN with the bit set that marks it as quiet. -/
def quiet (word : UInt64) : UInt64 := word ||| 0x0008000000000000

/-- The NaN of an operation that has no result. -/
def undefinedWord : UInt64 := 0xFFF8000000000000

/-- An operation on words. A NaN operand is handed on; other NaNs are all the same word. -/
def onWords (op : Float → Float → Float) (x y : UInt64) : UInt64 :=
  if isNanWord x then quiet x
  else if isNanWord y then quiet y
  else
    let result := op (Float.ofBits x) (Float.ofBits y)
    if result.isNaN then undefinedWord else result.toBits

def add : UInt64 → UInt64 → UInt64 := onWords (· + ·)

def sub : UInt64 → UInt64 → UInt64 := onWords (· - ·)

def mul : UInt64 → UInt64 → UInt64 := onWords (· * ·)

def div : UInt64 → UInt64 → UInt64 := onWords (· / ·)

def rem : UInt64 → UInt64 → UInt64 := onWords remainder

/-- The sign is turned, also that of a NaN. -/
def negate (word : UInt64) : UInt64 := word ^^^ 0x8000000000000000

/-- Whether the first number is smaller; a NaN is neither smaller nor greater than anything. -/
def less (x y : UInt64) : Bool := Float.ofBits x < Float.ofBits y

def lessOrSame (x y : UInt64) : Bool := Float.ofBits x ≤ Float.ofBits y

/-- Whether two numbers are equal; the two zeros are, and a NaN equals nothing. -/
def equal (x y : UInt64) : Bool := Float.ofBits x == Float.ofBits y

/-- The smaller number. A NaN gives way to the other operand; of two NaNs the first is handed on as
it is, and of two equal numbers the second. -/
def least (x y : UInt64) : UInt64 := if isNanWord y || less x y then x else y

/-- The greater number, by the same rules. -/
def greatest (x y : UInt64) : UInt64 := if isNanWord y || less y x then x else y

def ofInt (n : Int) : UInt64 := (Float.ofInt n).toBits

end Blockflow.Number
