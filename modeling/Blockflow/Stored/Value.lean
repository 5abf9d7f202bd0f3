import Blockflow.Json.Basic
import Blockflow.Literal.Basic

/-!
# Stored values

A stored value outlives its session: its type is written as a type literal, and a label is kept by
its name, since the numbers of labels differ from session to session.
-/

namespace Blockflow

/-- A value with the text of its type in place of the type. -/
structure StoredValue where
  ty : String
  scalar : UInt64
  data : List UInt8 := []
  elements : List StoredValue := []
  deriving BEq, Repr, Inhabited

namespace StoredValue

mutual

/-- Store a value. -/
def capture : Value → StoredValue
  | ⟨ty, elements, data, scalar, _⟩ =>
    { ty := ty.text, scalar, data, elements := captureAll elements }

def captureAll : List Value → List StoredValue
  | [] => []
  | value :: values => capture value :: captureAll values

end

mutual

/-- The value again. Structs and vectors must have the elements that their types ask for. -/
def restore : StoredValue → Action Value
  | ⟨type, scalar, data, elements⟩ => do
    let ty ← Literal.parseType type
    if ty.isPrimitive .label then Store.label (Text.Utf8.decodeLossy data)
    else
      let elements ← restoreAll elements
      match ty.shape with
      | .struct .. | .vector .. => Store.composite ty elements
      | _ => Store.ofParts ty scalar data elements

def restoreAll : List StoredValue → Action (List Value)
  | [] => return []
  | stored :: rest => do
    let value ← restore stored
    return value :: (← restoreAll rest)

end

/-- Empty lists are left out. -/
def unlessEmpty (name : String) : List Json → List (String × Json)
  | [] => []
  | items => [(name, .array items)]

mutual

def toJson : StoredValue → Json
  | ⟨type, scalar, data, elements⟩ =>
    .object ([("ty", .string type), ("scalar", .integer scalar.toNat)] ++
      unlessEmpty "data" (data.map fun byte => .integer byte.toNat) ++
      unlessEmpty "elements" (toJsonAll elements))

def toJsonAll : List StoredValue → List Json
  | [] => []
  | stored :: rest => toJson stored :: toJsonAll rest

end

/-- A natural number of 64 bits. -/
def word? (json : Json) : Option UInt64 := (json.natBelow? (1 <<< 64)).map UInt64.ofNat

def bytes? : Json → Option (List UInt8) :=
  Json.listOf? fun json => (json.natBelow? (1 <<< 8)).map UInt8.ofNat

/-- A stored value of which some members are read. -/
structure Draft where
  ty : Option String := none
  scalar : Option UInt64 := none
  data : Option (List UInt8) := none
  elements : Option (List StoredValue) := none

/-- The bytes and the elements may be missing. -/
def Draft.finish? (draft : Draft) : Option StoredValue := do
  return {
    ty := ← draft.ty
    scalar := ← draft.scalar
    data := draft.data.getD []
    elements := draft.elements.getD [] }

/-- A member must not be repeated. -/
def once? {α : Type} (before : Option α) (field : Option α) : Option (Option α) :=
  if before.isSome then none else field.map some

mutual

/-- Read a stored value: an object without repeated fields, or an array of the leading fields. -/
def ofJson? : Json → Option StoredValue
  | .object members => (members? {} members).bind Draft.finish?
  | .array [ty, scalar] => Draft.finish? { ty := ty.string?, scalar := word? scalar }
  | .array [ty, scalar, data] => do
    Draft.finish? { ty := ty.string?, scalar := word? scalar, data := some (← bytes? data) }
  | .array [ty, scalar, data, elements] => do
    Draft.finish? {
      ty := ty.string?, scalar := word? scalar, data := some (← bytes? data)
      elements := some (← list? elements) }
  | _ => none

def members? (draft : Draft) : List (String × Json) → Option Draft
  | [] => some draft
  | ("ty", value) :: rest => do
    members? { draft with ty := ← once? draft.ty value.string? } rest
  | ("scalar", value) :: rest => do
    members? { draft with scalar := ← once? draft.scalar (word? value) } rest
  | ("data", value) :: rest => do
    members? { draft with data := ← once? draft.data (bytes? value) } rest
  | ("elements", value) :: rest => do
    members? { draft with elements := ← once? draft.elements (list? value) } rest
  | _ :: rest => members? draft rest

def list? : Json → Option (List StoredValue)
  | .array items => ofJsonAll? items
  | _ => none

def ofJsonAll? : List Json → Option (List StoredValue)
  | [] => some []
  | item :: items => do
    let stored ← ofJson? item
    return stored :: (← ofJsonAll? items)

end

end StoredValue

end Blockflow
