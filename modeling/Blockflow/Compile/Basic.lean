import Blockflow.Compile.Emission

/-!
# Compilation

Several outputs, or none, are packed into one result.
-/

namespace Blockflow.Compile

/-- Parameters with their places; of a node that is listed twice the last place counts. -/
def paramPlaces (root : Root) : List (Handle × Nat) := root.params.zipIdx.reverse

def namedOutputs (root : Root) : List (Handle × String) :=
  root.outputs.zipIdx.map fun (output, index) => (output, (root.outputNames[index]?).getD "?")

/-- All that is decided before instructions are emitted. -/
structure Plan where
  order : List Visit
  outputs : List Handle
  addresses : Addresses
  frameSize : Nat
  /-- The address of the packed result, unless there is exactly one output. -/
  packed : Option Nat

/-- Order the nodes, place them in scopes, and give them addresses. -/
def plan (graph : Graph) (root : Root) : Except Diagnostic Plan := do
  let params := paramPlaces root
  let isParam id := (params.lookup id).isSome
  let (outputs, walk) ← walkOutputs graph isParam (namedOutputs root) {}
  let order := walk.done.reverse
  let placement ← place graph order walk.loops outputs
  let (placement, offsets) := claimAll placement order
  let (packedOffset, tree) :=
    if outputs.length = 1 then (none, placement.tree)
    else
      let (offset, tree) := placement.tree.claim ScopeTree.rootId
      (some offset, tree)
  let (frameSize, tree) := tree.layout root.params.length
  return {
    order, outputs, frameSize
    addresses := { params, placement := { placement with tree }, offsets }
    packed := packedOffset.map (tree.address ScopeTree.rootId) }

/-- The code of the root scope and the address of the result. -/
def code (graph : Graph) (plan : Plan) : Emit (List Instruction × Nat) := do
  emit graph plan.addresses plan.order plan.order
  let code ← Emission.take ScopeTree.rootId
  match plan.packed with
  | some ret =>
    let ins ← plan.outputs.mapM fun output => Effect.ofExcept (plan.addresses.get output)
    return (code ++ [.pack ins ret], ret)
  | none =>
    match plan.outputs.head? with
    | some output => return (code, ← plan.addresses.get output)
    | none => return (code, 0)

/-- The circuits that were expanded in place. -/
def inlinedCircuits (graph : Graph) : List String :=
  let nested := graph.expansions.toList.filter fun (_, e) => e.parent?.isSome
  (nested.map fun (_, e) => e.circuit.name).foldl
    (fun names name => if name ∈ names then names else names ++ [name]) []

/-- Note the addresses at the nodes. -/
def recordAddresses (graph : Graph) (plan : Plan) : Graph :=
  let generation := graph.generation
  (plan.order.map Visit.node ++ plan.addresses.params.map (·.1)).foldl (fun graph id =>
    match plan.addresses.find? id with
    | some address => graph.modifyNode id fun node =>
      { node with address := some address, generation }
    | none => graph) graph

/-- Compile what the outputs of a root need. Slots of called circuits are made even if compilation
fails. -/
def compile (graph : Graph) (root : Root) (slots : Slots) :
    Except Diagnostic Program × Graph × Slots :=
  match plan graph root with
  | .error d => (.error (d.inCircuit root.name), graph, slots)
  | .ok plan =>
    match (code graph plan).run { slots } with
    | (.error d, e) => (.error (d.inCircuit root.name), graph, e.slots)
    | (.ok (code, ret), e) =>
      let program : Program := {
        name := root.name
        code
        frameSize := plan.frameSize
        params := root.params.length
        ret
        callees := e.callees
        inlined := inlinedCircuits graph }
      (.ok program, recordAddresses graph plan, e.slots)

end Blockflow.Compile
