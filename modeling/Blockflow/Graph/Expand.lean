import Blockflow.Graph.Assembly

/-!
# Expansion

A block is assembled when one of its outputs is first needed. An input of a nested circuit is
resolved at its call site, one level further out, so the chain of call sites bounds the recursion.
-/

namespace Blockflow

namespace Expansion

/-- A further link; no name is declared twice, and an empty name stands for no link. -/
def declare (circuit : Circuit) (links : List (String × LinkTarget)) (name : String)
    (target : LinkTarget) : Except Diagnostic (List (String × LinkTarget)) :=
  if name.isEmpty then .ok links
  else if (links.lookup name).isSome then
    .error (Diagnostic.inCircuit { problem := .duplicateLink name circuit.name } circuit.name)
  else .ok (links ++ [(name, target)])

/-- All links that a circuit declares, in order: inputs, arguments, outputs of blocks. -/
def declarations (circuit : Circuit) : List (String × LinkTarget) :=
  circuit.inputPins.names.zipIdx.map (fun (name, index) => (name, .input index))
  ++ circuit.argumentPins.names.zipIdx.map (fun (name, index) => (name, .argument index))
  ++ circuit.blocks.zipIdx.flatMap fun (block, index) =>
    block.outputs.zipIdx.map fun (name, pin) => (name, .output index pin)

/-- The targets of the links; no link may be declared twice. -/
def linkMap (circuit : Circuit) : Except Diagnostic (List (String × LinkTarget)) :=
  (declarations circuit).foldlM (fun links (name, target) => declare circuit links name target) []

/-- A new instance, of which no block is made. It fails if a link is declared twice. -/
def make (circuit : Circuit) (parents : List CallSite) (arguments : List String) :
    Except Diagnostic Expansion := do
  let links ← linkMap circuit
  let blocks := Array.replicate circuit.blocks.length BlockState.unmade
  return { circuit, parents, links, blocks, arguments }

/-- An argument of a block with the name of an argument of this circuit replaced by what was
supplied for it. The variadic argument stands for all that it gathers. -/
def specializeOne (expansion : Expansion) (argument : String) : List String :=
  let pins := expansion.circuit.argumentPins
  match pins.names.idxOf? argument with
  | none => [argument]
  | some index =>
    if pins.rest? = some index then expansion.arguments.drop index
    else [(expansion.arguments[index]?).getD argument]

/-- Arguments of a block, with the arguments of the circuit in place of their names. -/
def specialize (expansion : Expansion) (arguments : List String) : List String :=
  arguments.flatMap expansion.specializeOne

def block? (expansion : Expansion) (index : Nat) : Option Block := expansion.circuit.blocks[index]?

/-- Unmade until it is asked for. -/
def stateOf (expansion : Expansion) (index : Nat) : BlockState :=
  (expansion.blocks[index]?).getD .unmade

def setBlock (expansion : Expansion) (index : Nat) (state : BlockState) : Expansion :=
  { expansion with blocks := expansion.blocks.setIfInBounds index state }

end Expansion

namespace Expand

/-- The instance, which must not be torn down. -/
def expansionAt (id : Handle) : Edit Expansion := do
  match (← Edit.graph).expansion? id with
  | some expansion => return expansion
  | none => .refuse .expansionGone

/-- Fails if it was torn down. -/
def modifyAt (id : Handle) (f : Expansion → Expansion) : Edit Unit := do
  discard (expansionAt id)
  Edit.modifyGraph (·.modifyExpansion id f)

/-- A node of an instance. -/
def addOwned (behavior : Behavior) (inputs : Nat) (owner : Handle) : Edit Handle :=
  Edit.onGraph (·.addNode behavior inputs (some owner))

/-- Nothing, if it was freed. -/
def live? (node : Option Handle) : Edit (Option Handle) := do
  return (← Edit.graph).live? node

/-- The value of an argument: the variadic one packs all that it gathers. -/
def argumentValue (expansion : Expansion) (index : Nat) : Action Value :=
  let pins := expansion.circuit.argumentPins
  if pins.rest? = some index then do
    let values ← (expansion.arguments.drop index).mapM Literal.parseAuto
    Store.pack values
  else match expansion.arguments[index]? with
    | some text => Literal.parseAuto text
    | none => .refuse (.missingArgument ((pins.name? index).getD "") expansion.circuit.name)

/-- The constant of an argument that is used as a link, made on first use. -/
def resolveArgument (id : Handle) (index : Nat) : Edit Handle := do
  let expansion ← expansionAt id
  match ← live? (expansion.argumentNodes.lookup index) with
  | some node => return node
  | none =>
    let value ← Edit.onStore (argumentValue expansion index)
    let node ← addOwned (.const value) 0 id
    modifyAt id fun e =>
      { e with argumentNodes := (index, node) :: e.argumentNodes.filter (·.1 != index) }
    return node

/-- A block must have as many links as the circuit that it names has pins. -/
def checkPins (callee : Circuit) (pins : Pins) (side : Side) (supplied : Nat) :
    Except Diagnostic Unit :=
  if pins.accepts supplied then .ok ()
  else .error { problem := .circuitTakes callee.name pins.size side supplied }

/-- A node for an output of a nested circuit, which is expanded when it is evaluated. -/
def addNestedOutput (id : Handle) (block pin : Nat) : Edit Handle := do
  let node ← addOwned (.nested block pin) 1 id
  Edit.modifyGraph (·.addPending node 0 (.nestedOutput block pin))
  return node

/-- The nodes of a block that stands for a circuit: one for every fixed output; surplus outputs
unpack a hidden node that waits for the variadic one. -/
def nestedOutputs (id : Handle) (block : Nat) (callee : Circuit) (descriptor : Block)
    (arguments : List String) : Edit BlockState := do
  let supplied := descriptor.outputs.length
  checkPins callee callee.inputPins .inputs descriptor.inputs.length
  checkPins callee callee.outputPins .outputs supplied
  checkPins callee callee.argumentPins .arguments arguments.length
  let pins := callee.outputPins
  let fixed := if pins.isVariadic then pins.fixed else supplied
  let outputs ← (List.range (min fixed supplied)).mapM fun pin => addNestedOutput id block pin
  match pins.rest? with
  | some rest =>
    if fixed < supplied then
      let carrier ← addNestedOutput id block rest
      let unpacks ← (List.range (supplied - fixed)).mapM fun index => do
        let node ← addOwned (.unpack index) 1 id
        Edit.modifyGraph (·.connect node 0 (some carrier))
        return node
      return .nested (outputs ++ unpacks) (some carrier) none
    else return .nested outputs none none
  | none => return .nested outputs none none

/-- Make the nodes of a block, by its assembler or for the outputs of a nested circuit. -/
def materialize (library : Library) (id : Handle) (block : Nat) : Edit Unit := do
  let expansion ← expansionAt id
  match expansion.stateOf block, expansion.block? block with
  | .unmade, some descriptor =>
    let arguments := expansion.specialize descriptor.arguments
    match library.assembler? descriptor.blockType with
    | some assemble =>
      let outputs ← assemble ⟨id, descriptor, arguments, library.circuits⟩
      if outputs.length ≠ descriptor.outputs.length then
        .refuse (.outputsProduced descriptor.blockType outputs.length descriptor.outputs.length)
      else modifyAt id (·.setBlock block (.made outputs))
    | none =>
      match library.circuit? descriptor.blockType with
      | some callee =>
        let state ← nestedOutputs id block callee descriptor arguments
        modifyAt id (·.setBlock block state)
      | none => .refuse (.unknownBlockType descriptor.blockType)
  | _, _ => return ()

/-- The node of an output of a block, which is made if it is not yet. -/
def blockOutput (library : Library) (id : Handle) (block pin : Nat) : Edit (Option Handle) := do
  materialize library id block
  match (← expansionAt id).stateOf block with
  | .made outputs | .nested outputs _ _ => live? outputs[pin]?
  | .unmade => return none

/-- The node of an input of a nested circuit, where `resolve` resolves links at its call site. A
variadic input packs the surplus links of the call. -/
def resolveInput (expansion : Expansion) (id : Handle) (site : CallSite) (index : Nat)
    (resolve : String → Edit (Option Handle)) : Edit (Option Handle) := do
  let isRest := expansion.circuit.inputPins.rest? == some index
  match ← live? (if isRest then expansion.restPack else none) with
  | some pack => return some pack
  | none =>
    let caller ← expansionAt site.expansion
    let links := ((caller.block? site.block).map Block.inputs).getD []
    if isRest then
      let surplus := links.drop index
      let pack ← addOwned .pack surplus.length id
      surplus.zipIdx.forM fun (link, pin) => do
        let source ← resolve link
        Edit.modifyGraph (·.connect pack pin source)
      modifyAt id fun e => { e with restPack := some pack }
      return some pack
    else match links[index]? with
      | some link => resolve link
      | none => return none

/-- The node that stands for a link of an expansion nested in the given call sites. -/
def resolveLink (library : Library) : List CallSite → Handle → String → Edit (Option Handle)
  | sites, id, name => do
    if name.isEmpty then return none
    else
      let expansion ← expansionAt id
      match expansion.links.lookup name with
      | none =>
        .fail (Diagnostic.inCircuit { problem := .unresolvedLink name } expansion.circuit.name)
      | some (.argument index) => return some (← resolveArgument id index)
      | some (.output block pin) => blockOutput library id block pin
      | some (.input index) =>
        match sites with
        | [] => return expansion.params[index]?
        | site :: outer =>
          resolveInput expansion id site index (resolveLink library outer site.expansion)

/-- The node that a link stands for; it is missing if a link of the circuits around is not
connected. -/
def link (library : Library) (id : Handle) (name : String) : Edit (Option Handle) := do
  let sites := ((← Edit.graph).expansion? id).elim [] Expansion.parents
  resolveLink library sites id name

/-- No circuit is nested in itself. -/
def checkAncestors (callee : Circuit) : List Handle → Edit Unit
  | [] => return ()
  | id :: outer => do
    let expansion ← expansionAt id
    if expansion.circuit.name = callee.name then .refuse (.recursiveExpansion callee.name)
    else checkAncestors callee outer

/-- Expand the circuit of a block in place. -/
def expandNested (library : Library) (id : Handle) (block : Nat) : Edit Handle := do
  let expansion ← expansionAt id
  let descriptor := (expansion.block? block).getD default
  match library.circuit? descriptor.blockType with
  | none => .refuse (.unknownBlockType descriptor.blockType)
  | some callee =>
    checkAncestors callee (id :: expansion.parents.map CallSite.expansion)
    let arguments := expansion.specialize descriptor.arguments
    let child ← Expansion.make callee (⟨id, block⟩ :: expansion.parents) arguments
    let childId ← Edit.onGraph fun graph =>
      let (childId, expansions) := graph.expansions.alloc child
      (childId, { graph with expansions })
    modifyAt id fun e =>
      match e.stateOf block with
      | .nested outputs hidden _ => e.setBlock block (.nested outputs hidden (some childId))
      | _ => e
    return childId

/-- The instance of a block, expanded anew if it was torn down. -/
def childOf (library : Library) (id : Handle) (block : Nat) (child : Option Handle) :
    Edit Handle := do
  match child with
  | some child =>
    if (← Edit.graph).expansions.contains child then return child
    else expandNested library id block
  | none => expandNested library id block

/-- The node of an output of a nested circuit, which is expanded on first use. An output that is
needed while an output of the same expansion is being resolved makes the circuit recursive. -/
def nestedOutput (library : Library) (id : Handle) (block pin : Nat) : Edit (Option Handle) := do
  match (← expansionAt id).stateOf block with
  | .nested _ _ child =>
    let child ← childOf library id block child
    let expansion ← expansionAt child
    if expansion.expanding then .refuse (.recursiveExpansion expansion.circuit.name)
    else match expansion.circuit.outputPins.name? pin with
      | none => return none
      | some name =>
        modifyAt child fun e => { e with expanding := true }
        let resolved ← (link library child name).attempt
        modifyAt child fun e => { e with expanding := false }
        resolved
  | _ => return none

/-- Parameters, and pass-through nodes that wait for the outputs of the circuit. -/
def addRootNodes (id : Handle) (circuit : Circuit) : Edit Root := do
  let params ← (List.range circuit.inputs.length).mapM fun index => addOwned (.param index) 0 id
  let outputNames := circuit.outputPins.names
  let outputs ← outputNames.mapM fun name => do
    let node ← addOwned .pass 1 id
    Edit.modifyGraph (·.addPendingLink node 0 name)
    return node
  Edit.modifyGraph (·.modifyExpansion id fun e => { e with params, anchors := outputs })
  return { name := circuit.name, expansion := some id, params, outputs, outputNames }

/-- Expand a circuit at the top, with parameters for its inputs. -/
def instantiate (library : Library) (name : String) (arguments : List String) : Edit Root := do
  match library.circuit? name with
  | none => .refuse (.unknownCircuit name)
  | some circuit =>
    let expansion ← Expansion.make circuit [] arguments
    let id ← Edit.onGraph fun graph =>
      let (id, expansions) := graph.expansions.alloc expansion
      (id, { graph with expansions })
    addRootNodes id circuit

end Expand

end Blockflow
