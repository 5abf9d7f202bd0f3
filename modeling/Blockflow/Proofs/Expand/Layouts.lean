import Blockflow.Proofs.Expand.Recipes
import Blockflow.Proofs.Expand.Restating

/-!
# Layouts of blocks

A block type is positional if it knows the links of a block by their places only, and the circuits
of the library by what they declare: it can tell how many links there are, but not what they are
called. What such a block type makes is the same for every way to state a circuit, up to the names
of the links.
-/

namespace Blockflow

/-- What a pin of a node of a block reads, by its place. -/
inductive PinPlace where
  /-- An input of the block. -/
  | input (i : Nat)
  /-- A node of the block that was made before. -/
  | part (i : Nat)

namespace Assembly

/-- The block without the names of its links, its owner and the blocks of the circuits around it. -/
def blank (asm : Assembly) : Assembly where
  owner := default
  block :=
    { asm.block with
      inputs := asm.block.inputs.map fun _ => ""
      outputs := asm.block.outputs.map fun _ => "" }
  arguments := asm.arguments
  circuits := asm.circuits.map Circuit.signature

/-- What a place stands for in a block. -/
def source (asm : Assembly) : PinPlace → PinSource
  | .input i => .link ((asm.block.inputs[i]?).getD "")
  | .part i => .part i

end Assembly

/-- How a block type makes its nodes: what they compute, if the block can be made, the places that
their pins read, and the nodes that stand for the outputs. -/
structure Layout where
  behaviors : Assembly → Action (List Behavior)
  pins : Assembly → List (List PinPlace)
  outputs : Assembly → List Nat

/-- The assembler that follows a layout. -/
def Layout.assembler (layout : Layout) : Assembler := fun asm => do
  let behaviors ← Edit.onStore (layout.behaviors asm.blank)
  let nodes ← asm.makeParts [] (behaviors.zip ((layout.pins asm.blank).map (·.map asm.source)))
  return (layout.outputs asm.blank).filterMap (nodes[·]?)

/-- All block types of a library follow layouts. -/
def Library.Positional (lib : Library) : Prop :=
  ∀ entry ∈ lib.assemblers, ∃ layout : Layout, entry.2 = layout.assembler

end Blockflow
