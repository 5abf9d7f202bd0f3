import Blockflow.Ty.Basic

/-!
# Layout

Sizes and alignments are 32-bit quantities and cell counts 64-bit ones; what leaves the range stays
at its upper end. A vector whose size leaves the range is refused before it is made.
-/

namespace Blockflow.Layout

/-- Sizes have 32 bits. -/
def maxSize : Nat := 1 <<< 32 - 1

/-- Cells are counted in 64 bits. -/
def maxCells : Nat := 1 <<< 64 - 1

/-- Sizes stop at the largest word. -/
def saturate (n : Nat) : Nat := min n maxSize

def saturateCells (n : Nat) : Nat := min n maxCells

/-- The next multiple of an alignment. -/
def alignUp (offset align : Nat) : Nat :=
  let align := max align 1
  saturate ((offset + align - 1) / align * align)

def nextPowerOfTwo (n : Nat) : Nat :=
  if n ≤ 1 then 1 else 1 <<< ((n - 1).log2 + 1)

/-- Bytes of `count` elements, unless they leave the range. A SIMD vector fills a power of two. -/
def vectorSize? (element : Ty) (count : Nat) (simd : Bool) : Option Nat :=
  let size := element.size * count
  let rounded := if simd && size != 0 then nextPowerOfTwo size else size
  if size ≤ maxSize && rounded ≤ maxSize then some rounded else none

/-- Fields in order, each at the next multiple of its alignment. -/
def structLayout (fields : List Ty) : Nat × Nat :=
  let (offset, align) := fields.foldl
    (fun (offset, align) field =>
      (saturate (alignUp offset field.align + field.size), max align field.align))
    (0, 1)
  (alignUp offset align, align)

/-- Size and alignment. -/
def layout : Shape Ty → Nat × Nat
  | .primitive p => (p.size, p.size)
  | .vector element count simd =>
    let size := (vectorSize? element count simd).getD maxSize
    if simd then (size, max size 1) else (size, element.align)
  | .struct fields _ => structLayout fields
  | .pointer .. | .function .. => (8, 8)

/-- How many values a value of the shape consists of. -/
def cells : Shape Ty → Nat
  | .vector element count _ => saturateCells (saturateCells (element.cells * count) + 1)
  | .struct fields _ => fields.foldl (fun total field => saturateCells (total + field.cells)) 1
  | _ => 1

end Blockflow.Layout
