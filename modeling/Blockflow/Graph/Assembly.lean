import Blockflow.Graph.Library
import Blockflow.Literal.Basic
import Blockflow.Native.Operators

/-!
# Assemblers

The block types that every library starts with. A block is checked before it makes a node, inputs
before outputs before arguments.
-/

namespace Blockflow.Assembly

/-- An argument of the block, which must be there. -/
def argument (assembly : Assembly) (index : Nat) : Except Diagnostic String :=
  match assembly.arguments[index]? with
  | some text => .ok text
  | none => .error { problem := .missingBlockArgument assembly.block.blockType index }

/-- The value of an argument, read as a literal. -/
def literal (assembly : Assembly) (index : Nat) (tag : String) : Edit Value := do
  Edit.onStore (Literal.parse tag (← assembly.argument index))

/-- How many links or arguments the block has on a side. -/
def count (assembly : Assembly) : Side → Nat
  | .inputs => assembly.block.inputs.length
  | .outputs => assembly.block.outputs.length
  | .arguments => assembly.arguments.length

/-- A block with another number of links or arguments is refused. -/
def expect (assembly : Assembly) (side : Side) (arity : Arity) : Except Diagnostic Unit :=
  if arity.accepts (assembly.count side) then .ok ()
  else .error { problem := .blockTakes assembly.block.blockType arity side (assembly.count side) }

/-- A node whose pins wait for links. -/
def addLinked (assembly : Assembly) (behavior : Behavior) (links : List String) : Edit Handle :=
  Edit.onGraph fun graph =>
    let (id, graph) := graph.addNode behavior links.length (some assembly.owner)
    (id, links.zipIdx.foldl (fun graph (link, pin) => graph.addPendingLink id pin link) graph)

/-- A node whose pins wait for the inputs of the block. -/
def addNode (assembly : Assembly) (behavior : Behavior) : Edit Handle :=
  assembly.addLinked behavior assembly.block.inputs

/-- A node whose pins nothing is said about. -/
def addDetached (assembly : Assembly) (behavior : Behavior) (inputs : Nat) : Edit Handle :=
  Edit.onGraph (·.addNode behavior inputs (some assembly.owner))

/-- Wire a pin at once. -/
def connect (node : Handle) (pin : Nat) (source : Option Handle) : Edit Unit :=
  Edit.modifyGraph (·.connect node pin source)

/-- One node makes up the block. -/
def single (assembly : Assembly) (behavior : Behavior) : Edit (List Handle) := do
  return [← assembly.addNode behavior]

/-- A constant of a given kind. -/
def ofLiteral (tag : String) : Assembler := fun assembly => do
  assembly.expect .inputs (.exactly 0)
  assembly.expect .outputs (.exactly 1)
  assembly.expect .arguments (.exactly 1)
  assembly.single (.const (← assembly.literal 0 tag))

/-- A literal of any kind, or of the kind that the first argument names. -/
def const : Assembler := fun assembly => do
  assembly.expect .inputs (.exactly 0)
  assembly.expect .outputs (.exactly 1)
  match assembly.arguments with
  | [_] => assembly.single (.const (← assembly.literal 0 "auto"))
  | [tag, _] => assembly.single (.const (← assembly.literal 1 tag))
  | arguments => .refuse (.constArguments arguments.length)

/-- An operator that is dispatched on its operands. -/
def operator (name : String) (inputs : Nat) : Assembler := fun assembly => do
  assembly.expect .inputs (.exactly inputs)
  assembly.expect .outputs (.exactly 1)
  assembly.single (.virtual [name])

/-- An operator under the names that the arguments give. -/
def virtualCall : Assembler := fun assembly => do
  assembly.expect .inputs (.atLeast 1)
  assembly.expect .outputs (.exactly 1)
  assembly.expect .arguments (.atLeast 1)
  assembly.single (.virtual assembly.arguments)

/-- Any number of inputs. -/
def pack : Assembler := fun assembly => do
  assembly.expect .outputs (.exactly 1)
  assembly.single .pack

/-- One element at the index that the argument gives, or the leading elements. -/
def unpack : Assembler := fun assembly => do
  assembly.expect .inputs (.exactly 1)
  if assembly.arguments.isEmpty then
    (List.range assembly.block.outputs.length).mapM fun index => assembly.addNode (.unpack index)
  else
    assembly.expect .outputs (.exactly 1)
    let index := ((← assembly.literal 0 "int").int?).getD 0
    if index < 0 then .refuse (.negativeUnpackIndex index)
    else assembly.single (.unpack index.toNat)

def loopBegin : Assembler := fun assembly => do
  assembly.expect .inputs (.exactly 1)
  assembly.expect .outputs (.exactly 1)
  assembly.single .loopBegin

/-- Begin, next state and condition. -/
def loopEnd : Assembler := fun assembly => do
  assembly.expect .inputs (.exactly 3)
  assembly.expect .outputs (.exactly 1)
  assembly.single .loopEnd

/-- A selector and at least one branch. -/
def switch : Assembler := fun assembly => do
  assembly.expect .inputs (.atLeast 2)
  assembly.expect .outputs (.exactly 1)
  assembly.single .switch

/-- A call of a circuit at run time, which must fit its pins. -/
def call : Assembler := fun assembly => do
  assembly.expect .outputs (.exactly 1)
  assembly.expect .arguments (.exactly 1)
  let name ← assembly.argument 0
  match findCircuit? assembly.circuits name with
  | none => .refuse (.unknownCircuit name)
  | some callee =>
    let pins := callee.inputPins
    let supplied := assembly.block.inputs.length
    if pins.isVariadic || pins.size != supplied then
      .refuse (.circuitTakes name pins.size .inputs supplied)
    else assembly.single (.call name)

/-- The block type of a native. -/
def ofNative (native : Native) : Assembler := fun assembly => do
  assembly.expect .inputs native.arity
  assembly.expect .outputs (.exactly 1)
  assembly.single (.op native)

/-- The operators and how many operands they take. -/
def operators : List (String × Nat) := [
  ("add", 2), ("sub", 2), ("mul", 2), ("div", 2), ("rem", 2), ("neg", 1), ("lt", 2), ("le", 2),
  ("gt", 2), ("ge", 2), ("eq", 2), ("ne", 2), ("and", 2), ("or", 2), ("not", 1), ("min", 2),
  ("max", 2)]

end Blockflow.Assembly

namespace Blockflow.Library

/-- A block type of its own name. -/
def registerNative (library : Library) (native : Native) : Library :=
  library.register native.name (Assembly.ofNative native)

/-- Block types that are always there. -/
def builtinAssemblers : List (String × Assembler) :=
  Literal.kinds.map (fun tag => (tag, Assembly.ofLiteral tag))
  ++ [("const", Assembly.const)]
  ++ Assembly.operators.map (fun (name, inputs) => (name, Assembly.operator name inputs))
  ++ [("vcall", Assembly.virtualCall), ("pack", Assembly.pack), ("unpack", Assembly.unpack),
    ("begin", Assembly.loopBegin), ("end", Assembly.loopEnd), ("switch", Assembly.switch),
    ("call", Assembly.call)]
  ++ Operators.natives.map (fun native => (native.name, Assembly.ofNative native))

/-- The library without circuits. -/
def builtin : Library := { assemblers := builtinAssemblers }

end Blockflow.Library
