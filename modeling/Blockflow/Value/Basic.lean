import Blockflow.Number.Binary64
import Blockflow.Text.Utf8
import Blockflow.Ty.Table

/-!
# Values

The `scalar` word holds integers in two's complement, the words of floating-point numbers, booleans,
label numbers and counts; `data` holds bytes; composite values keep their parts in `elements`. The
element buffer of a value has an identity, which decides equality for pointers that alias their
contents.
-/

namespace Blockflow

/-- A value of a type: bytes, a word, and elements. -/
structure Value where
  ty : Ty
  elements : List Value
  data : List UInt8
  scalar : UInt64
  /-- The identity of the element buffer. -/
  buffer : Nat

namespace Value

instance : Inhabited Value := ⟨⟨default, [], [], 0, 0⟩⟩

def isPrimitive (value : Value) (p : Primitive) : Bool := value.ty.isPrimitive p

/-- The integer of a value of an integer type, cut to the width of the type. -/
def int? (value : Value) : Option Int :=
  match value.ty.primitive? with
  | some .u8 => some value.scalar.toUInt8.toNat
  | some .i8 => some value.scalar.toUInt8.toInt8.toInt
  | some .i16 => some value.scalar.toUInt16.toInt16.toInt
  | some .i32 => some value.scalar.toUInt32.toInt32.toInt
  | some .i64 => some value.scalar.toInt64.toInt
  | _ => none

/-- The bits, widened to 64. -/
def floatWord? (value : Value) : Option UInt64 :=
  match value.ty.primitive? with
  | some .f64 => some value.scalar
  | some .f32 => some (Number.widen value.scalar.toUInt32)
  | _ => none

def bool? (value : Value) : Option Bool :=
  if value.isPrimitive .bool then some (value.scalar != 0) else none

/-- The number of a label. -/
def label? (value : Value) : Option Nat :=
  if value.isPrimitive .label then some value.scalar.toUInt32.toNat else none

/-- The text of a pointer to bytes, if the bytes are valid. -/
def text? (value : Value) : Option String :=
  match value.ty.shape with
  | .pointer (some target) _ =>
    if target.isPrimitive .u8 then Text.Utf8.decode? value.data else none
  | _ => none

/-- An element, or why there is none. -/
def element (value : Value) (index : Nat) : Except Diagnostic Value :=
  match value.elements[index]? with
  | some element => .ok element
  | none =>
    match value.ty.shape with
    | .struct .. | .vector .. | .pointer .. =>
      .error { problem := .tooFewElements index value.ty.text value.elements.length }
    | _ => .error { problem := .noElements value.ty.text }

/-- Whether two values have the same buffer. -/
def sharesElements (a b : Value) : Bool := a.buffer == b.buffer

mutual

/-- Equality: type, scalar, data and elements agree. Pointers that alias their contents must share
their element buffer. -/
def same : Value → Value → Bool
  | ⟨ty, elements, data, scalar, buffer⟩, other =>
    ty == other.ty && scalar == other.scalar && data == other.data
      && (if ty.isShared then buffer == other.buffer else sameElements elements other.elements)

def sameElements : List Value → List Value → Bool
  | [], [] => true
  | a :: as, b :: bs => same a b && sameElements as bs
  | _, _ => false

end

instance : BEq Value := ⟨same⟩

end Value

end Blockflow
