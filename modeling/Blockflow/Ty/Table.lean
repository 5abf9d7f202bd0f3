import Blockflow.Diagnostic.Basic
import Blockflow.Ty.Layout
import Blockflow.Ty.Printer

/-!
# Type tables

Forgetting everything keeps the count of handles, so no later type shares a handle with an earlier
one.
-/

namespace Blockflow

/-- The largest count of a vector. -/
def maxVectorLength : Nat := 1 <<< 16

/-- The largest number of values in one instance of a type. -/
def maxValueCells : Nat := 1 <<< 20

/-- What tells types apart: the shape over the handles of the parts. -/
abbrev TypeKey := Shape Nat

/-- All types and labels that exist. -/
structure TypeTable where
  /-- The handle of the first primitive type; the others follow it. -/
  base : Nat := 0
  nextId : Nat := Primitive.all.length
  /-- The types other than primitives, latest first. -/
  interned : List (TypeKey × Ty) := []
  /-- Label names in the order of their numbers. -/
  labels : List String := []

namespace TypeTable

instance : Inhabited TypeTable := ⟨{}⟩

/-- A table that knows nothing but the primitive types, with handles above all used before. -/
def reset (table : TypeTable) : TypeTable :=
  { base := table.nextId, nextId := table.nextId + Primitive.all.length }

def primitive (table : TypeTable) (p : Primitive) : Ty :=
  ⟨table.base + p.index, .primitive p, p.size, p.size, 1⟩

def size (table : TypeTable) : Nat := table.interned.length

/-- The type of a shape; equal shapes have one type. -/
def intern (table : TypeTable) (shape : Shape Ty) : Ty × TypeTable :=
  match shape with
  | .primitive p => (table.primitive p, table)
  | shape =>
    let key := shape.map Ty.id
    match table.interned.lookup key with
    | some ty => (ty, table)
    | none =>
      let (size, align) := Layout.layout shape
      let ty : Ty := ⟨table.nextId, shape, size, align, Layout.cells shape⟩
      (ty, { table with nextId := table.nextId + 1, interned := (key, ty) :: table.interned })

/-- The number of a label, a new one for a new name. -/
def label (table : TypeTable) (name : String) : Nat × TypeTable :=
  match table.labels.idxOf? name with
  | some id => (id, table)
  | none => (table.labels.length, { table with labels := table.labels ++ [name] })

def labelName? (table : TypeTable) (id : Nat) : Option String := table.labels[id]?

/-- Whether a vector is short enough, has few enough cells, and fits in memory. -/
def vectorFits (element : Ty) (count : Nat) (simd : Bool) : Bool :=
  count ≤ maxVectorLength && Layout.saturateCells (element.cells * count) < maxValueCells
    && (Layout.vectorSize? element count simd).isSome

/-- Refused if it does not fit. -/
def vectorOf (table : TypeTable) (element : Ty) (count : Nat) (simd : Bool) :
    Except Diagnostic Ty × TypeTable :=
  if vectorFits element count simd then
    let (ty, table) := table.intern (.vector element count simd)
    (.ok ty, table)
  else (.error { problem := .vectorTooLarge count element.text maxVectorLength }, table)

/-- Fields without names. -/
def structOf (table : TypeTable) (fields : List Ty) : Ty × TypeTable :=
  table.intern (.struct fields none)

def namedStructOf (table : TypeTable) (fields : List (String × Ty)) : Ty × TypeTable :=
  table.intern (.struct (fields.map (·.2)) (some (fields.map (·.1))))

/-- The struct without fields. -/
def void (table : TypeTable) : Ty × TypeTable := table.structOf []

/-- Without a target, to anything. -/
def pointerTo (table : TypeTable) (target : Option Ty) (flags : PointerFlags) : Ty × TypeTable :=
  table.intern (.pointer target flags)

def functionOf (table : TypeTable) (result : Ty) (params : List Ty) : Ty × TypeTable :=
  table.intern (.function result params)

/-- Texts are read-only pointers to bytes. -/
def text (table : TypeTable) : Ty × TypeTable :=
  table.pointerTo (some (table.primitive .u8)) { readOnly := true }

/-- The type of a path with a payload, which drives switches. -/
def selectorOf (table : TypeTable) (payload : Ty) : Ty × TypeTable :=
  table.namedStructOf [("path", table.primitive .i64), ("payload", payload)]

end TypeTable

namespace Ty

/-- Values of the type have to be small enough. -/
def checkCells (ty : Ty) : Except Diagnostic Unit :=
  if maxValueCells < ty.cells then
    .error { problem := .tooManyCells ty.text ty.cells maxValueCells }
  else .ok ()

/-- The type of the element at an index; every element of a pointer has its target type. -/
def element (ty : Ty) (index : Nat) : Except Diagnostic Ty :=
  match ty.shape with
  | .vector element count _ =>
    if index < count then .ok element
    else .error { problem := .typeIndexOutOfRange index ty.text }
  | .struct fields _ =>
    match fields[index]? with
    | some field => .ok field
    | none => .error { problem := .typeIndexOutOfRange index ty.text }
  | .pointer (some target) _ => .ok target
  | _ => .error { problem := .noElements ty.text }

end Ty

end Blockflow
