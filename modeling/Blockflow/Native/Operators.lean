import Blockflow.Native.Methods

/-! # Built-in operators and natives -/

namespace Blockflow.Operators

/-- Whether a number fits in 64 bits. -/
def fits (n : Int) : Bool := -Int.ofNat (1 <<< 63) ≤ n && n < Int.ofNat (1 <<< 63)

/-- A result that is in range. -/
def checked (n : Int) : Option Int := if fits n then some n else none

/-- Integer arithmetic. Division truncates; the remainder fails where the quotient does. -/
def intArithmetic : List (String × (Int → Int → Option Int)) := [
  ("add", fun a b => checked (a + b)),
  ("sub", fun a b => checked (a - b)),
  ("mul", fun a b => checked (a * b)),
  ("div", fun a b => if b = 0 then none else checked (a.tdiv b)),
  ("rem", fun a b => if b = 0 then none else (checked (a.tdiv b)).map fun _ => a.tmod b),
  ("min", fun a b => some (min a b)),
  ("max", fun a b => some (max a b))]

def intComparisons : List (String × (Int → Int → Bool)) := [
  ("lt", fun a b => a < b),
  ("le", fun a b => a ≤ b),
  ("gt", fun a b => b < a),
  ("ge", fun a b => b ≤ a),
  ("eq", fun a b => a == b),
  ("ne", fun a b => a != b)]

def floatArithmetic : List (String × (UInt64 → UInt64 → UInt64)) := [
  ("add", Number.add),
  ("sub", Number.sub),
  ("mul", Number.mul),
  ("div", Number.div),
  ("rem", Number.rem),
  ("min", Number.least),
  ("max", Number.greatest)]

def floatComparisons : List (String × (UInt64 → UInt64 → Bool)) := [
  ("lt", Number.less),
  ("le", Number.lessOrSame),
  ("gt", fun a b => Number.less b a),
  ("ge", fun a b => Number.lessOrSame b a),
  ("eq", Number.equal),
  ("ne", fun a b => !Number.equal a b)]

def boolOperators : List (String × (Bool → Bool → Bool)) := [
  ("and", fun a b => a && b),
  ("or", fun a b => a || b),
  ("eq", fun a b => a == b),
  ("ne", fun a b => a != b)]

/-- Texts are ordered by their characters' numbers. -/
def textComparisons : List (String × (String → String → Bool)) := [
  ("eq", fun a b => a == b),
  ("ne", fun a b => a != b),
  ("lt", fun a b => a < b)]

def allAre (p : Primitive) (args : List Value) : Bool := args.all (·.isPrimitive p)

/-- An operand of a float method. -/
def isNumber (value : Value) : Bool := value.isPrimitive .f64 || value.isPrimitive .i64

/-- A float and a number. -/
def floatFirst : List Value → Bool
  | [a, b] => a.isPrimitive .f64 && isNumber b
  | _ => false

/-- Of `i64`; they take no floats. -/
def intMethods : List Native :=
  intArithmetic.map (fun (name, apply) =>
    (Native.ofArity name 2 fun args => do
      match apply (← args.int 0) (← args.int 1) with
      | some n => Store.int n
      | none => .refuse (.arithmeticFailed name)).accepting (allAre .i64))
  ++ intComparisons.map (fun (name, compare) =>
    (Native.ofArity name 2 fun args => do
      Store.bool (compare (← args.int 0) (← args.int 1))).accepting (allAre .i64))
  ++ [Native.ofArity "neg" 1 fun args => do
      match checked (-(← args.int 0)) with
      | some n => Store.int n
      | none => .refuse .negationOverflowed]

/-- A method on two numbers and its reverse, which sees the operands exchanged. -/
def bothWays (name : String) (result : UInt64 → UInt64 → StateM Store Value) : List Native := [
  (Native.ofArity name 2 fun args => do
    result (← args.float 0) (← args.float 1)).accepting floatFirst,
  (Native.ofArity ("r" ++ name) 2 fun args => do
    let second ← args.float 1
    result second (← args.float 0)).accepting floatFirst]

/-- Of `f64`; the other operand may be an integer. -/
def floatMethods : List Native :=
  floatArithmetic.flatMap (fun (name, apply) => bothWays name fun a b => Store.float (apply a b))
  ++ floatComparisons.flatMap (fun (name, compare) =>
    bothWays name fun a b => Store.bool (compare a b))
  ++ [Native.ofArity "neg" 1 fun args => do Store.float (Number.negate (← args.float 0))]

def boolMethods : List Native :=
  boolOperators.map (fun (name, apply) =>
    (Native.ofArity name 2 fun args => do
      Store.bool (apply (← args.bool 0) (← args.bool 1))).accepting (allAre .bool))
  ++ [Native.ofArity "not" 1 fun args => do Store.bool (!(← args.bool 0))]

def allTexts (args : List Value) : Bool := args.all (·.text?.isSome)

def textMethods : List Native :=
  (Native.ofArity "add" 2 fun args => do
    Store.text ((← args.text 0) ++ (← args.text 1))).accepting allTexts
  :: textComparisons.map (fun (name, compare) =>
    (Native.ofArity name 2 fun args => do
      Store.bool (compare (← args.text 0) (← args.text 1))).accepting allTexts)

def labelMethods : List Native :=
  [("eq", true), ("ne", false)].map fun (name, wanted) =>
    (Native.ofArity name 2 fun args => do
      let same := (← args.get 0).scalar == (← args.get 1).scalar
      Store.bool (same == wanted)).accepting (allAre .label)

/-- Add natives as methods of a type. -/
def defineAll (methods : Methods) (ty : Ty) (natives : List Native) : Methods :=
  natives.foldl (fun methods native => methods.define ty native.name native) methods

/-- Add the operators of all primitive types and of texts. -/
def install (methods : Methods) : StateM Store Methods := do
  let text ← Store.withTypes (·.text)
  let methods := defineAll methods (← Store.primitive .i64) intMethods
  let methods := defineAll methods (← Store.primitive .f64) floatMethods
  let methods := defineAll methods (← Store.primitive .bool) boolMethods
  let methods := defineAll methods text textMethods
  return defineAll methods (← Store.primitive .label) labelMethods

/-- The bytes of a text, or the elements of another value. -/
def len : Native := .ofArity "len" 1 fun args => do
  let value ← args.get 0
  Store.int (match value.text? with
    | some text => text.utf8ByteSize
    | none => value.elements.length)

/-- Print the arguments in one line; the only native with an effect. -/
def print : Native where
  name := "print"
  arity := .atLeast 0
  isPure := false
  body args := do
    Store.print (" ".intercalate (args.values.map Value.text))
    Store.void

/-- The natives that are no operators. -/
def natives : List Native := [len, print]

end Blockflow.Operators
