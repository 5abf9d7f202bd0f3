import Blockflow.Number.Arithmetic
import Blockflow.Value.Store

/-!
# Natives

A native sees its inputs through typed accessors and makes one value. Pure natives may be folded
while a graph settles. As a method of a type, a native may decline operands.
-/

namespace Blockflow

/-- The arguments of a native, with its name for diagnostics. -/
structure Arguments where
  name : String
  values : List Value

namespace Arguments

/-- Missing inputs are errors. -/
def get (args : Arguments) (index : Nat) : Except Diagnostic Value :=
  match args.values[index]? with
  | some value => .ok value
  | none => .error { problem := .missingInput args.name index }

/-- An argument that can be read in some way. -/
def expect {α : Type} (args : Arguments) (what : String) (read : Value → Option α) (index : Nat) :
    Except Diagnostic α := do
  let value ← args.get index
  match read value with
  | some a => return a
  | none => throw { problem := .unexpectedInput args.name what index value.ty.text }

def int (args : Arguments) : Nat → Except Diagnostic Int := args.expect "an integer" Value.int?

/-- The word of a floating-point number, or of an integer widened to one. -/
def float (args : Arguments) : Nat → Except Diagnostic UInt64 :=
  args.expect "a number" fun value => value.floatWord? <|> value.int?.map Number.ofInt

def bool (args : Arguments) : Nat → Except Diagnostic Bool := args.expect "a bool" Value.bool?

def text (args : Arguments) : Nat → Except Diagnostic String := args.expect "text" Value.text?

def bytes (args : Arguments) (index : Nat) : Except Diagnostic (List UInt8) :=
  (args.get index).map Value.data

def elements (args : Arguments) (index : Nat) : Except Diagnostic (List Value) :=
  (args.get index).map Value.elements

end Arguments

/-- An operation that the host provides. -/
structure Native where
  name : String
  arity : Arity
  isPure : Bool := true
  accepts : List Value → Bool := fun _ => true
  body : Arguments → Action Value

namespace Native

/-- A failure inside a native is a resource failure, unless it is about a budget. -/
def failure (d : Diagnostic) : Diagnostic :=
  match d.kind with
  | .budget | .resource => d
  | _ => { d with kind := .resource }

/-- Call a native; its failures are about the operation. -/
def call (native : Native) (values : List Value) : Action Value :=
  (native.body ⟨native.name, values⟩).mapFailure failure

def ofArity (name : String) (count : Nat) (body : Arguments → Action Value) : Native :=
  { name, arity := .exactly count, body }

/-- Only for such operands. -/
def accepting (native : Native) (accepts : List Value → Bool) : Native := { native with accepts }

end Native

end Blockflow
