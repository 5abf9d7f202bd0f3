import Blockflow.Json.Basic

/-!
# Circuits

A circuit is a list of blocks wired by the names of their links. The last declared pin may be
variadic, which its name says by three dots at the end.
-/

namespace Blockflow

/-- A block of a circuit, with the names of its links. -/
structure Block where
  blockType : String
  inputs : List String := []
  outputs : List String := []
  arguments : List String := []
  deriving DecidableEq, Repr, Inhabited

/-- A circuit: pins, and blocks that are connected by the names of links. -/
structure Circuit where
  name : String
  inputs : List String := []
  outputs : List String := []
  arguments : List String := []
  blocks : List Block := []
  deriving DecidableEq, Repr, Inhabited

/-- Pins as they are declared; the last one may be variadic. -/
structure Pins where
  declared : List String
  deriving DecidableEq, Repr

namespace Pins

/-- The name in front of the mark of a variadic pin, if it has the mark. -/
def marked? (name : String) : Option String :=
  match name.toList.reverse with
  | '.' :: '.' :: '.' :: rest => some (String.ofList rest.reverse)
  | _ => none

/-- Without the mark of a variadic pin. -/
def strip (name : String) : String := (marked? name).getD name

/-- The last pin takes any number of links. -/
def isVariadic (pins : Pins) : Bool := (pins.declared.getLast?.bind marked?).isSome

def size (pins : Pins) : Nat := pins.declared.length

/-- The number of pins before the variadic one. -/
def fixed (pins : Pins) : Nat := pins.size - (if pins.isVariadic then 1 else 0)

/-- The place of the variadic pin. -/
def rest? (pins : Pins) : Option Nat := if pins.isVariadic then some (pins.size - 1) else none

/-- The names without the mark of the variadic pin. -/
def names (pins : Pins) : List String := pins.declared.map strip

def name? (pins : Pins) (index : Nat) : Option String := pins.declared[index]?.map strip

/-- Whether a number of supplied links fits: at most the declared ones, or at least the fixed ones
of variadic pins. -/
def accepts (pins : Pins) (supplied : Nat) : Bool :=
  if pins.isVariadic then pins.fixed ≤ supplied else supplied ≤ pins.size

end Pins

namespace Circuit

def inputPins (circuit : Circuit) : Pins := ⟨circuit.inputs⟩

def outputPins (circuit : Circuit) : Pins := ⟨circuit.outputs⟩

def argumentPins (circuit : Circuit) : Pins := ⟨circuit.arguments⟩

end Circuit

namespace Json

def strings? : Json → Option (List String) := listOf? string?

def block? (json : Json) : Option Block := do
  match ← record? ["block_type", "inputs", "outputs", "arguments"] json with
  | [blockType, inputs, outputs, arguments] =>
    return {
      blockType := ← required? string? blockType
      inputs := ← optional? [] strings? inputs
      outputs := ← optional? [] strings? outputs
      arguments := ← optional? [] strings? arguments }
  | _ => none

def circuit? (json : Json) : Option Circuit := do
  match ← record? ["name", "inputs", "outputs", "arguments", "blocks"] json with
  | [name, inputs, outputs, arguments, blocks] =>
    return {
      name := ← required? string? name
      inputs := ← optional? [] strings? inputs
      outputs := ← optional? [] strings? outputs
      arguments := ← optional? [] strings? arguments
      blocks := ← optional? [] (listOf? block?) blocks }
  | _ => none

def module? (json : Json) : Option (List Circuit) := do
  match ← record? ["circuits"] json with
  | [circuits] => required? (listOf? circuit?) circuits
  | _ => none

end Json

end Blockflow
