/-!
# Types

Types are made by a `TypeTable` only, which gives equal shapes one handle, so two types are compared
by their handles.
-/

namespace Blockflow

/-- The types without parts. -/
inductive Primitive where
  | bool
  | i8
  | u8
  | i16
  | i32
  | i64
  | f32
  | f64
  /-- An interned name, stored as its number. -/
  | label
  deriving DecidableEq, Repr, Inhabited

namespace Primitive

def all : List Primitive := [.bool, .i8, .u8, .i16, .i32, .i64, .f32, .f64, .label]

def index : Primitive → Nat
  | .bool => 0
  | .i8 => 1
  | .u8 => 2
  | .i16 => 3
  | .i32 => 4
  | .i64 => 5
  | .f32 => 6
  | .f64 => 7
  | .label => 8

def size : Primitive → Nat
  | .bool | .i8 | .u8 => 1
  | .i16 => 2
  | .i32 | .f32 | .label => 4
  | .i64 | .f64 => 8

def name : Primitive → String
  | .bool => "bool"
  | .i8 => "i8"
  | .u8 => "u8"
  | .i16 => "i16"
  | .i32 => "i32"
  | .i64 => "i64"
  | .f32 => "f32"
  | .f64 => "f64"
  | .label => "label"

def ofName? (name : String) : Option Primitive := all.find? (·.name == name)

def isInteger : Primitive → Bool
  | .i8 | .u8 | .i16 | .i32 | .i64 => true
  | _ => false

def isFloat : Primitive → Bool
  | .f32 | .f64 => true
  | _ => false

end Primitive

structure PointerFlags where
  noCapture : Bool := false
  readOnly : Bool := false
  deriving DecidableEq, Repr, Inhabited

namespace PointerFlags

def union (a b : PointerFlags) : PointerFlags :=
  ⟨a.noCapture || b.noCapture, a.readOnly || b.readOnly⟩

end PointerFlags

/-- One layer of a type over component types `α`. -/
inductive Shape (α : Type) where
  | primitive (p : Primitive)
  | vector (element : α) (count : Nat) (simd : Bool)
  /-- Field types, with one name for every field or no names at all. -/
  | struct (fields : List α) (names : Option (List String))
  | pointer (target : Option α) (flags : PointerFlags)
  | function (result : α) (params : List α)
  deriving DecidableEq, Repr

def Shape.map {α β : Type} (f : α → β) : Shape α → Shape β
  | .primitive p => .primitive p
  | .vector element count simd => .vector (f element) count simd
  | .struct fields names => .struct (fields.map f) names
  | .pointer target flags => .pointer (target.map f) flags
  | .function result params => .function (f result) (params.map f)

/-- A type with its handle, layout and number of cells. -/
structure Ty where
  /-- The handle; no two types of a table share one. -/
  id : Nat
  shape : Shape Ty
  size : Nat
  align : Nat
  cells : Nat

namespace Ty

instance : Inhabited Ty := ⟨⟨0, .primitive .bool, 1, 1, 1⟩⟩

/-- Types are compared by their handles. -/
instance : BEq Ty := ⟨fun a b => a.id == b.id⟩

def primitive? (ty : Ty) : Option Primitive :=
  match ty.shape with
  | .primitive p => some p
  | _ => none

def isPrimitive (ty : Ty) (p : Primitive) : Bool := ty.primitive? == some p

/-- A struct without fields. -/
def isVoid (ty : Ty) : Bool :=
  match ty.shape with
  | .struct fields _ => fields.isEmpty
  | _ => false

/-- What may be an element of a vector in one register. -/
def simdCapable : Ty → Bool
  | ⟨_, .primitive p, _, _, _⟩ => p != .label
  | ⟨_, .vector element _ simd, _, _, _⟩ => simd || element.simdCapable
  | _ => false

/-- Pointers that are not read-only alias their contents. -/
def isShared (ty : Ty) : Bool :=
  match ty.shape with
  | .pointer _ flags => !flags.readOnly
  | _ => false

def fieldNames? (ty : Ty) : Option (List String) :=
  match ty.shape with
  | .struct _ names => names
  | _ => none

/-- The field of a struct with a single unnamed field, which is transparent to dispatch. -/
def wrapped? (ty : Ty) : Option Ty :=
  match ty.shape with
  | .struct [field] none => some field
  | _ => none

end Ty

end Blockflow
