import Blockflow.Effect
import Blockflow.Value.Printer

/-!
# The store

Every constructor takes a new buffer. Changes of the store outlast a failure of the action that made
them.
-/

namespace Blockflow

/-- The types that exist, the number of the next buffer, and what was printed. -/
structure Store where
  types : TypeTable := {}
  nextBuffer : Nat := 0
  output : String := ""

/-- A change of the store that may fail. -/
abbrev Action (α : Type) := Effect Store α

namespace Store

instance : Inhabited Store := ⟨{}⟩

def withTypes {α : Type} (op : TypeTable → α × TypeTable) : StateM Store α := fun store =>
  let (result, types) := op store.types
  (result, { store with types })

def tryTypes {α : Type} (op : TypeTable → Except Diagnostic α × TypeTable) : Action α :=
  ⟨withTypes op⟩

def freshBuffer : StateM Store Nat := fun store =>
  (store.nextBuffer, { store with nextBuffer := store.nextBuffer + 1 })

def primitive (p : Primitive) : StateM Store Ty := fun store => (store.types.primitive p, store)

/-- A value with a buffer of its own. -/
def ofParts (ty : Ty) (scalar : UInt64) (data : List UInt8) (elements : List Value) :
    StateM Store Value := do
  return ⟨ty, elements, data, scalar, ← freshBuffer⟩

def scalar (ty : Ty) (word : UInt64) : StateM Store Value := ofParts ty word [] []

def int (n : Int) : StateM Store Value := do scalar (← primitive .i64) (UInt64.ofInt n)

def float (word : UInt64) : StateM Store Value := do scalar (← primitive .f64) word

def bool (b : Bool) : StateM Store Value := do scalar (← primitive .bool) (if b then 1 else 0)

/-- A label; its name travels in the data, so that it prints without the table. -/
def label (name : String) : StateM Store Value := do
  let id ← withTypes (·.label name)
  ofParts (← primitive .label) (UInt64.ofNat id) (Text.Utf8.encode name) []

/-- Bytes of a given type; the scalar counts them. -/
def bytes (ty : Ty) (data : List UInt8) : StateM Store Value :=
  ofParts ty (UInt64.ofNat data.length) data []

def text (content : String) : StateM Store Value := do
  bytes (← withTypes (·.text)) (Text.Utf8.encode content)

/-- A value with elements, which its scalar counts. -/
def aggregate (ty : Ty) (elements : List Value) : StateM Store Value :=
  ofParts ty (UInt64.ofNat elements.length) [] elements

/-- The struct of some values. -/
def pack (values : List Value) : StateM Store Value := do
  aggregate (← withTypes (·.structOf (values.map Value.ty))) values

/-- The struct without fields. -/
def void : StateM Store Value := pack []

/-- How many elements a value of a shape has, if the shape says so. -/
def elementCount? : Shape Ty → Option Nat
  | .struct fields _ => some fields.length
  | .vector _ count _ => some count
  | _ => none

/-- A value of a type with given elements, as many as the type asks for. -/
def composite (ty : Ty) (elements : List Value) : Action Value :=
  match ty.shape with
  | .primitive _ | .function .. => .refuse (.cannotHoldElements ty.text)
  | shape =>
    match elementCount? shape with
    | some expected =>
      if expected = elements.length then aggregate ty elements
      else .refuse (.wrongElementCount ty.text expected elements.length)
    | none => aggregate ty elements

/-- `count` values made one after another, in reverse, in front of `made`. -/
def times (make : StateM Store Value) (made : List Value) : Nat → StateM Store (List Value)
  | 0 => pure made
  | count + 1 => do times make ((← make) :: made) count

mutual

/-- The zero value of a type. -/
def zero : Ty → StateM Store Value
  | ⟨id, .struct fields names, size, align, cells⟩ => do
    aggregate ⟨id, .struct fields names, size, align, cells⟩ (← zeros fields)
  | ⟨id, .vector element count simd, size, align, cells⟩ => do
    let elements ← times (zero element) [] count
    aggregate ⟨id, .vector element count simd, size, align, cells⟩ elements.reverse
  | ty => aggregate ty []

def zeros : List Ty → StateM Store (List Value)
  | [] => pure []
  | ty :: tys => do
    let value ← zero ty
    return value :: (← zeros tys)

end

/-- A copy with another element, in a new buffer. -/
def withElement (value : Value) (index : Nat) (element : Value) : Action Value := do
  discard (value.element index)
  let buffer ← freshBuffer
  return { value with elements := value.elements.set index element, buffer }

def print (text : String) : StateM Store Unit :=
  modify fun store => { store with output := store.output ++ text ++ "\n" }

end Store

end Blockflow
